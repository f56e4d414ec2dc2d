import Quantive.Candles.BucketAlignment
import Quantive.Candles.GapDetection
import Quantive.Candles.Reconciliation
import Quantive.Candles.Scheduling

/-!
# Runs of a repair

A repair that nothing disturbs completes exactly when the minutes around its window are there: the
exchange is never asked for the rest of the minute in which the window ends, nor for the minute in
which it begins unless it begins in its first millisecond.
-/

namespace Quantive.Candles
open Quantive.ReadCommitted Prog

/-! ### What is left after the reconciliations -/

section
variable {S : Set (ℤ × ℤ)} {start stop : ℤ} {gaps : List (ℤ × ℤ)}

/-- The minute in which the window begins is covered or asked for, and so is the first one from its
end on. -/
def EdgesCovered (points : Set ℤ) (start stop : ℤ) : Prop :=
  (floorTo minute start ∈ points ∨
    start % minute < millisecond ∧ milliseconds start < milliseconds stop) ∧
  (minute ∣ stop ∨ ceilTo minute stop ∈ points)

/-- What detection reports of a window. -/
structure Reported (S : Set (ℤ × ℤ)) (start stop : ℤ) (gaps : List (ℤ × ℤ)) : Prop where
  nonempty : ∀ g ∈ gaps, g.1 < g.2
  inside : ∀ g ∈ gaps, start ≤ g.1 ∧ g.2 ≤ stop
  complete : ∀ t, start ≤ t → t ≤ stop → ¬ (∃ r ∈ S, r.1 ≤ t ∧ t ≤ r.2) → Within t gaps
  left : ∀ g ∈ gaps, g.1 = start ∨ ∃ r ∈ S, g.1 = r.2
  right : ∀ g ∈ gaps, g.2 = stop ∨ ∃ r ∈ S, g.2 = r.1

/-- A minute of the window is covered or asked for, unless the window ends in its first
millisecond. -/
theorem Reported.asked (h : Reported S start stop gaps) (hS : Spaced minute S) {t : ℤ}
    (ht : minute ∣ t) (hlow : start ≤ t) (hhigh : t ≤ stop) (hnot : t ∉ points minute S) :
    (∃ g ∈ gaps, t ∈ askedMinutes g.1 g.2) ∨ t = start ∧ milliseconds start = milliseconds stop := by
  have hfree : ¬ ∃ r ∈ S, r.1 ≤ t ∧ t ≤ r.2 := fun hin => hnot ⟨ht, hin⟩
  obtain ⟨g, hg, hg₁, hg₂⟩ := h.complete t hlow hhigh hfree
  have hlt := h.nonempty g hg
  obtain ⟨hfrom, hto⟩ := h.inside g hg
  rw [minute_eq] at ht
  by_cases hms : milliseconds g.1 < milliseconds g.2
  · refine .inl ⟨g, hg, ?_, hms, ?_, hg₂⟩
    · rw [minute_eq]
      exact ht
    · unfold milliseconds millisecond
      omega
  · refine .inr ?_
    unfold milliseconds millisecond at hms ⊢
    have hsame : g.1 = t := by omega
    have hstart : g.1 = start := by
      rcases h.left g hg with hstart | ⟨r, hr, hend⟩
      · exact hstart
      · exact absurd ⟨r, hr, by have := hS.ordered r hr; omega, by omega⟩ hfree
    have hstop : g.2 = stop := by
      rcases h.right g hg with hstop | ⟨r, hr, hbegin⟩
      · exact hstop
      · have haligned := (hS.aligned r hr).1
        rw [minute_eq] at haligned
        omega
    rw [hstop, hstart] at hms
    exact ⟨by omega, by omega⟩

/-- The minute in which the window begins is asked for when it begins in its first millisecond. -/
theorem Reported.asked_first (h : Reported S start stop gaps) (hS : Spaced minute S)
    (hnot : floorTo minute start ∉ points minute S) (hfirst : start % minute < millisecond)
    (hms : milliseconds start < milliseconds stop) :
    ∃ g ∈ gaps, floorTo minute start ∈ askedMinutes g.1 g.2 := by
  have hmod := Int.emod_nonneg start minute_pos.ne'
  have hfloor : minute ∣ floorTo minute start := dvd_floorTo start
  -- no range reaches into the minute
  have hfree : ∀ t, start ≤ t → t < floorTo minute start + minute → ¬ ∃ r ∈ S, r.1 ≤ t ∧ t ≤ r.2 := by
    rintro t hlow hhigh ⟨r, hr, hr₁, hr₂⟩
    have hbegin : r.1 ≤ floorTo minute start := by
      by_contra hlate
      have hstep := add_le_of_dvd hfloor (hS.aligned r hr).1 (not_le.mp hlate)
      omega
    refine hnot ⟨hfloor, r, hr, hbegin, ?_⟩
    have hbelow := floorTo_le (t := start) minute_pos
    omega
  unfold floorTo at hfree hnot hfloor ⊢
  rw [minute_eq] at hfree hfirst hmod hnot hfloor ⊢
  unfold millisecond at hfirst
  unfold milliseconds millisecond at hms
  obtain ⟨g, hg, hg₁, hg₂⟩ := h.complete start le_rfl (by omega) (hfree start le_rfl (by omega))
  have hlt := h.nonempty g hg
  obtain ⟨hfrom, hto⟩ := h.inside g hg
  refine ⟨g, hg, ?_, ?_, ?_, by omega⟩
  · rw [minute_eq]
    exact hfloor
  · unfold milliseconds millisecond
    rcases h.right g hg with hstop | ⟨r, hr, hbegin⟩
    · rw [hstop]
      omega
    · have haligned := (hS.aligned r hr).1
      rw [minute_eq] at haligned
      omega
  · unfold milliseconds millisecond
    omega

/-- The ranges hold the window, after its gaps were asked for, exactly when its edges are covered. -/
theorem Reported.filled_iff (h : Reported S start stop gaps) (hS : Spaced minute S) (hlt : start < stop)
    {T : Set (ℤ × ℤ)} (hT : Spaced minute T)
    (hpoints : points minute T = points minute S ∪ {t | ∃ g ∈ gaps, t ∈ askedMinutes g.1 g.2}) :
    (∃ r ∈ T, r.1 ≤ start ∧ stop ≤ r.2) ↔ EdgesCovered (points minute S) start stop := by
  have hfloor := floorTo_le (t := start) minute_pos
  have hceil := le_ceilTo minute_pos stop
  have hspans : (∃ r ∈ T, r.1 ≤ start ∧ stop ≤ r.2) ↔
      ∃ r ∈ T, r.1 ≤ floorTo minute start ∧ ceilTo minute stop ≤ r.2 := by
    constructor
    · rintro ⟨r, hr, hr₁, hr₂⟩
      obtain ⟨ha, hb⟩ := hT.aligned r hr
      exact ⟨r, hr, le_floorTo minute_pos ha hr₁, ceilTo_le minute_pos hb hr₂⟩
    · rintro ⟨r, hr, hr₁, hr₂⟩
      exact ⟨r, hr, hr₁.trans hfloor, hceil.trans hr₂⟩
  rw [hspans, hT.spans_iff minute_pos (dvd_floorTo start) (dvd_ceilTo stop) (by omega), hpoints]
  constructor
  · intro hall
    constructor
    · rcases hall _ (dvd_floorTo start) le_rfl (by omega) with hin | ⟨g, hg, -, hms, hlow, -⟩
      · exact .inl hin
      · obtain ⟨hfrom, hto⟩ := h.inside g hg
        refine .inr ?_
        unfold floorTo at hlow
        unfold milliseconds millisecond at hlow hms ⊢
        have hmod := Int.emod_nonneg start minute_pos.ne'
        constructor <;> omega
    · rcases hall _ (dvd_ceilTo stop) (by omega) le_rfl with hin | ⟨g, hg, -, -, -, hhigh⟩
      · exact .inr hin
      · have hto := (h.inside g hg).2
        have hsame : ceilTo minute stop = stop := by omega
        exact .inl (hsame ▸ dvd_ceilTo stop)
  · rintro ⟨hleft, hright⟩ t ht hlow hhigh
    by_cases hin : t ∈ points minute S
    · exact .inl hin
    refine .inr ?_
    rcases lt_or_ge t start with hbefore | hafter
    · -- only the minute in which the window begins lies before it
      have hfirst : t = floorTo minute start :=
        le_antisymm (le_floorTo minute_pos ht hbefore.le) hlow
      rw [hfirst] at hin ⊢
      rcases hleft with hleft | ⟨hms, hmss⟩
      · exact absurd hleft hin
      · exact h.asked_first hS hin hms hmss
    · rcases lt_or_ge stop t with hlate | hinside
      · have hlast : t = ceilTo minute stop := by
          have hle := ceilTo_le minute_pos ht hlate.le
          omega
        rcases hright with hright | hright
        · have hsame := ceilTo_le minute_pos hright le_rfl
          omega
        · exact absurd (hlast ▸ hright) hin
      · rcases h.asked hS ht hafter hinside hin with hasked | ⟨rfl, hms⟩
        · exact hasked
        · have hsame : floorTo minute t = t := by
            have hle := le_floorTo minute_pos ht le_rfl
            omega
          rcases hleft with hleft | ⟨-, hmss⟩
          · exact absurd (hsame ▸ hleft) hin
          · omega

end

/-! ### Detection -/

section
variable {d : Database} {assetId : ℕ} {start stop : ℤ}

theorem mem_rangesIn_iff {r : ℤ × ℤ} : r ∈ d.rangesIn assetId start stop ↔
    r ∈ d.coverage assetId ∧ start ≤ r.2 ∧ r.1 ≤ stop := by
  unfold Database.rangesIn
  rw [List.mem_insertionSort, List.mem_map]
  constructor
  · rintro ⟨e, he, rfl⟩
    obtain ⟨hmem, hmeets⟩ := List.mem_filter.mp he
    simp only [Bool.and_eq_true, decide_eq_true_eq] at hmeets
    exact ⟨⟨e.1, e.2, AList.mem_lookup_iff.mpr hmem, hmeets.1.1, rfl⟩, hmeets.1.2, hmeets.2⟩
  · rintro ⟨⟨id, row, hrow, hasset, rfl⟩, hlow, hhigh⟩
    refine ⟨⟨id, row⟩, List.mem_filter.mpr ⟨AList.mem_lookup_iff.mp hrow, ?_⟩, rfl⟩
    simp only [Bool.and_eq_true, decide_eq_true_eq]
    exact ⟨⟨hasset, hlow⟩, hhigh⟩

/-- What is missing of a window. -/
def Database.missing (d : Database) (settings : GapRepairSettings) (assetId : ℕ) (start stop : ℤ) :
    List (ℤ × ℤ) :=
  missingRanges (d.rangesIn assetId start stop) start stop settings.detection.maxRanges
    settings.detection.maxGaps

theorem missing_reported (d : Database) (settings : GapRepairSettings) (assetId : ℕ)
    (hlt : start < stop) :
    Reported (d.coverage assetId) start stop (d.missing settings assetId start stop) := by
  have hrows : ∀ r ∈ d.rangesIn assetId start stop,
      r.1 ≤ r.2 ∧ r.1 ≤ stop ∧ ∀ t, r.1 ≤ t → t ≤ r.2 → d.Covers assetId t := by
    intro r hr
    obtain ⟨hmem, hordered, hstop⟩ := mem_rangesIn hr
    exact ⟨hordered, hstop, fun t hlow hhigh => ⟨r, hmem, hlow, hhigh⟩⟩
  obtain ⟨hlisted, hcomplete⟩ := missingRanges_complete hlt settings.detection.positive.2 hrows
  have hbounded := @missingRanges_bounded start stop settings.detection.maxGaps
    (d.rangesIn assetId start stop) settings.detection.maxRanges
  refine ⟨hlisted.nonempty, hlisted.inside, hcomplete, fun g hg => ?_, fun g hg => ?_⟩
  · rcases (hbounded g hg).left with h | ⟨r, hr, h⟩
    · exact .inl h
    · exact .inr ⟨r, (mem_rangesIn_iff.mp hr).1, h⟩
  · rcases (hbounded g hg).right with h | ⟨r, hr, h⟩
    · exact .inl h
    · exact .inr ⟨r, (mem_rangesIn_iff.mp hr).1, h⟩

/-- Nothing is missing of a window exactly when one range holds it. -/
theorem missing_nil_iff (hS : Spaced minute (d.coverage assetId)) (settings : GapRepairSettings)
    (hlt : start < stop) : d.missing settings assetId start stop = [] ↔
      ∃ r ∈ d.coverage assetId, r.1 ≤ start ∧ stop ≤ r.2 := by
  constructor
  · intro hnone
    refine (hS.holds_iff minute_pos hlt.le).mpr fun t hlow hhigh => ?_
    by_contra hfree
    obtain ⟨g, hg, -⟩ := (missing_reported d settings assetId hlt).complete t hlow hhigh hfree
    rw [hnone] at hg
    cases hg
  · rintro ⟨r, hr, hr₁, hr₂⟩
    refine missingRanges_nil settings.detection.positive.1 (fun q hq => ?_) ?_
    · obtain ⟨hmem, hlow, hhigh⟩ := mem_rangesIn_iff.mp hq
      have hminute := minute_pos
      obtain rfl := hS.apart r hr q hmem (by omega) (by omega)
      exact ⟨hr₁, hr₂⟩
    · refine List.ne_nil_of_mem (mem_rangesIn_iff.mpr ⟨hr, ?_, ?_⟩) <;> omega

end

section
variable {ans : ℕ → (q : Question) → Answer q} {s : Alone Database Write Lock} {assetId : ℕ}
  {history : History} {d : Database} {names : ℕ} {c : RepairClaim} {start stop : ℤ}

theorem yields_detectGaps (hans : Calm ans) (settings : GapRepairSettings) (hlt : start < stop) :
    Yields ans (detectGaps settings assetId start stop) s fun gaps s' =>
      gaps = s.view.missing settings assetId start stop ∧ s' = s.answered := by
  unfold detectGaps
  rw [if_neg (not_le.mpr hlt)]
  refine yields_query ?_
  rw [hans]
  unfold detectMissingRanges
  rw [if_neg (not_le.mpr hlt)]
  exact yields_view (yields_pure ⟨rfl, rfl⟩)

/-! ### One attempt -/

/-- What surrounds an attempt on a window. -/
structure Favourable (history : History) (ans : ℕ → (q : Question) → Answer q) (start stop : ℤ)
    (fuel : ℕ) : Prop where
  untroubled : Untroubled history ans
  serves : history.Serves start stop
  recent : ∀ n, clockAt ans n - 7 * day ≤ milliseconds start * millisecond
  pages : (milliseconds stop - milliseconds start).toNat < fuel

/-- The reconciliations of an attempt cover the minutes of all gaps. -/
theorem yields_reconciliations {fuel batchSize : ℕ} (h : Favourable history ans start stop fuel)
    (hbatch : 0 < batchSize) (hclaim : c.Holds ans d) (symbol : String) {gaps : List (ℤ × ℤ)}
    (hgaps : ∀ g ∈ gaps, start ≤ g.1 ∧ g.2 ≤ stop) (hs : Between assetId d names s) :
    Yields ans (forEach (fun gap => do
      if ← Task.ownershipLost then raise (.leaseLost c.jobId)
      executeReconciliation assetId symbol gap.1 gap.2 batchSize (some c) fuel) gaps) s fun _ s' =>
        Between assetId d names s' ∧ covered assetId s' =
          covered assetId s ∪ {t | ∃ g ∈ gaps, t ∈ askedMinutes g.1 g.2} := by
  let I (done : List (ℤ × ℤ)) (s' : Alone Database Write Lock) : Prop :=
    Between assetId d names s' ∧ covered assetId s' =
      covered assetId s ∪ {t | ∃ g ∈ done, t ∈ askedMinutes g.1 g.2}
  have hstart : I [] s := by
    refine ⟨hs, ?_⟩
    simp
  refine yields_forEach (I := I) [] hstart fun done gap s' hgap ⟨hs', hcovered⟩ => ?_
  obtain ⟨hfrom, hto⟩ := hgaps gap hgap
  refine yields_query ?_
  rw [h.untroubled.owned]
  have hfrom' : milliseconds start ≤ milliseconds gap.1 := by
    unfold milliseconds millisecond
    omega
  have hto' : milliseconds gap.2 ≤ milliseconds stop := by
    unfold milliseconds millisecond
    omega
  have hserves : history.Serves gap.1 gap.2 := fun t ht hlow hhigh =>
    h.serves t ht (hfrom'.trans hlow) (hhigh.trans hto')
  have hrecent : ∀ n, clockAt ans n - 7 * day ≤ milliseconds gap.1 * millisecond := by
    intro n
    have hn := h.recent n
    unfold millisecond at hn ⊢
    omega
  have hpages := h.pages
  refine (yields_executeReconciliation h.untroubled hclaim hserves hrecent hbatch (by omega) symbol
    hs'.answered).mono fun _ s'' ⟨hs'', hcovered''⟩ => ⟨hs'', ?_⟩
  have hbefore : covered assetId s'.answered = covered assetId s' := rfl
  rw [hcovered'', hbefore, hcovered, Set.union_assoc]
  congr 1
  ext t
  simp only [Set.mem_union, Set.mem_ofPred_eq, List.mem_append, List.mem_singleton, or_and_right,
    exists_or, exists_eq_left]

theorem yields_updateWhere {ρ : Type} {lock : Lock} {row : Database → Option ρ} {change : ρ → Write}
    {r : ρ} (h : row s.view = some r) : Yields ans (Task.updateWhere lock row change) s fun done s' =>
      done = true ∧ s' = (s.hold lock).push (change r) := by
  refine yields_view ?_
  rw [h]
  refine yields_acquire (yields_view ?_)
  rw [Alone.hold_view, h]
  exact yields_emit (yields_pure ⟨rfl, rfl⟩)

/-- The row of the job says that it is completed. -/
def Database.Completed (d : Database) (jobId : ℕ) : Prop :=
  ∃ row, d.gapJobs.lookup jobId = some row ∧ row.status = .completed

theorem SchedulerWrite.gapJobs {w : Write} (h : SchedulerWrite w) (d : Database) :
    (Store.apply w d).gapJobs = d.gapJobs := by
  cases w with
  | putGapJob id job => cases h
  | _ => rfl

/-- Alone, an owned job is completed. -/
theorem yields_markComplete (hans : Calm ans) (hclaim : c.Holds ans d) {job : GapRepairJob}
    (hfresh : ∀ id, names ≤ id → d.caggJobs.lookup id = none) (hapart : Separate d.caggWindows)
    (hs : Between assetId d names s) :
    Yields ans (markCompleteAndScheduleCagg job c.jobId c.workerId c.leaseToken) s fun done s' =>
      done = true ∧ s'.db.Completed c.jobId := by
  refine yields_query ?_
  obtain ⟨n, hn⟩ : ∃ n, (ans s.asked .now : ℤ) = clockAt ans n := ⟨_, rfl⟩
  rw [hn]
  obtain ⟨window, hwindow⟩ : ∃ window,
      computeCaggBucketAlignment job.startTime job.endTime none true = .ok window := by
    unfold computeCaggBucketAlignment
    rw [if_pos rfl, if_neg (not_lt.mpr job.valid.le)]
    exact ⟨_, rfl⟩
  rw [hwindow]
  obtain ⟨scheduled, hscheduled⟩ : ∃ scheduled,
      computeCaggBucketAlignment window.1 window.2 none false = .ok scheduled := by
    have hlt := computeCaggBucketAlignment_lt hwindow
    unfold computeCaggBucketAlignment
    rw [if_neg Bool.false_ne_true, if_neg (not_le.mpr hlt)]
    exact ⟨_, rfl⟩
  refine yields_inTransaction_of hans (yields_acquire ?_)
  have hjobs : (s.answered.answered.hold (.asset job.assetId)).view.gapJobs = d.gapJobs :=
    (congrArg Database.gapJobs hs.settled).trans hs.gapJobs
  have hunwritten : ∀ u s', run ans (gapRepairJobs.assertOwnedLocked c.jobId c.workerId c.leaseToken)
      (s.answered.answered.hold (.asset job.assetId)) = some (.ok u, s') → s'.db = s.db := by
    intro u s' hrun
    have hemits : (gapRepairJobs.assertOwnedLocked c.jobId c.workerId c.leaseToken).Emits
        (fun _ _ => True) (fun _ => False) fun _ => True :=
      gapRepairJobs.emits_assertOwnedLocked ⟨trivial, trivial, trivial⟩ _ _ _
    have hview : (s.answered.answered.hold (.asset job.assetId)).view = s.db := hs.settled
    have hdb : (s.answered.answered.hold (.asset job.assetId)).db = s.db := rfl
    exact (run_keeps (K := fun d' => d' = s.db) (fun _ _ => trivial) (fun w hw => hw.elim) hemits hdb
      hview hrun).1
  refine ((yields_assertOwnedLocked hclaim hjobs).with_run hunwritten).bind ?_
  rintro _ s₁ ⟨⟨hview, hnames⟩, hdb⟩
  have hview₁ : s₁.view = s.db := hview.trans hs.settled
  have hcagg : s₁.view.caggJobs = d.caggJobs := by
    rw [hview₁]
    exact hs.caggJobs
  have hfresh₁ : ∀ id, s₁.names ≤ id → s₁.view.caggJobs.lookup id = none := by
    intro id hid
    rw [hcagg]
    have hlater : names ≤ s₁.names := by
      rw [hnames]
      exact hs.names
    exact hfresh id (hlater.trans hid)
  have hapart₁ : Separate s₁.view.caggWindows := by
    have hsame : s₁.view.caggWindows = d.caggWindows := by
      unfold Database.caggWindows
      rw [hcagg]
    rw [hsame]
    exact hapart
  have hkept : ∀ u s₂, run ans (scheduleCaggRefreshJob window.1 window.2 none false) s₁ =
      some (.ok u, s₂) → s₂.view.gapJobs = d.gapJobs := by
    intro u s₂ hrun
    have hemits : (scheduleCaggRefreshJob window.1 window.2 none false).Emits (fun _ _ => True)
        SchedulerWrite fun _ => True := emits_scheduleCaggRefreshJobs ⟨trivial, trivial, trivial⟩ _ _ _ _
    have hgap₁ : s₁.db.gapJobs = d.gapJobs := by
      rw [hdb]
      exact hs.gapJobs
    have hgap₁' : s₁.view.gapJobs = d.gapJobs := by
      rw [hview₁]
      exact hs.gapJobs
    exact (run_keeps (K := fun d' => d'.gapJobs = d.gapJobs) (fun _ _ => trivial)
      (fun w hw d' hd' => by rwa [hw.gapJobs d']) hemits hgap₁ hgap₁' hrun).2
  have hjobs₁ : Yields ans (scheduleCaggRefreshJob window.1 window.2 none false) s₁ _ :=
    yields_scheduleCaggRefreshJobs hscheduled hfresh₁ hapart₁
  refine (hjobs₁.with_run hkept).bind ?_
  rintro _ s₂ ⟨-, hgap₂⟩
  obtain ⟨row, hrow⟩ := Option.isSome_iff_exists.mp (hclaim n)
  have hselect : gapRepairJobs.select s₂.view (gapRepairJobs.owned (clockAt ans n) c.workerId
      c.leaseToken) c.jobId = some row := by
    rw [← hrow]
    unfold JobTable.select
    have hrows : gapRepairJobs.rows s₂.view = gapRepairJobs.rows d := hgap₂
    rw [hrows]
  refine (yields_updateWhere hselect).mono ?_
  rintro done s₃ ⟨rfl, rfl⟩
  refine ⟨rfl, { row with status := .completed, claim := none, nextAttemptAt := none
                          errorCategory := none }, ?_, rfl⟩
  change (((s₂.hold (gapRepairJobs.lock c.jobId)).push _).view).gapJobs.lookup c.jobId = _
  rw [Alone.push_view]
  exact AList.lookup_insert _

/-! ### Attempts that do not complete -/

/-- No job is set to completed. -/
def LeavesOpen : Write → Prop
  | .putGapJob _ job => job.status ≠ .completed
  | _ => True

theorem LeavesOpen.keeps {w : Write} (h : LeavesOpen w) {jobId : ℕ} {d : Database}
    (hd : ¬ d.Completed jobId) : ¬ (Store.apply w d).Completed jobId := by
  rintro ⟨row, hrow, hstatus⟩
  cases w with
  | putGapJob id job =>
    change (d.gapJobs.insert id job).lookup jobId = some row at hrow
    by_cases hid : jobId = id
    · rw [hid, AList.lookup_insert] at hrow
      obtain rfl := Option.some.inj hrow
      exact h hstatus
    · rw [AList.lookup_insert_ne hid] at hrow
      exact hd ⟨row, hrow, hstatus⟩
  | _ => exact hd ⟨row, hrow, hstatus⟩

/-- A program that leaves jobs open leaves one that is not completed as it is. -/
theorem run_leavesOpen {α : Type} {p : Task α}
    (hp : p.Emits (fun _ _ => True) LeavesOpen fun _ => True) {jobId : ℕ} {r : Except Failure α}
    {s' : Alone Database Write Lock} (hdb : ¬ s.db.Completed jobId) (hview : ¬ s.view.Completed jobId)
    (hrun : run ans p s = some (r, s')) : ¬ s'.db.Completed jobId ∧ ¬ s'.view.Completed jobId :=
  run_keeps (K := fun d => ¬ d.Completed jobId) (fun _ _ => trivial) (fun _ hw _ hd => hw.keeps hd) hp
    hdb hview hrun

theorem emits_markAwaitingMerge (jobId workerId leaseToken : ℕ) :
    (markAwaitingMerge jobId workerId leaseToken).Emits (fun _ _ => True) LeavesOpen fun _ => True := by
  have hlocal : LocalQuestions (fun _ => True) := ⟨trivial, trivial, trivial⟩
  refine (emits_now hlocal).bind fun now => emits_inTransaction hlocal ?_
  refine emits_updateWhere fun row => ?_
  change GapRepairStatus.awaitingMerge ≠ GapRepairStatus.completed
  decide

theorem failed_open (error : Failure) (now : ℤ) (job : GapRepairJob) :
    (job.failed error now).status ≠ .completed := by
  unfold GapRepairJob.failed
  dsimp only
  split
  · exact fun h => by cases h
  · exact fun h => by cases h

theorem emits_recordGapFailure (jobId workerId leaseToken : ℕ) (error : Failure) :
    (gapRepairJobs.recordFailure jobId workerId leaseToken (GapRepairJob.failed error)).Emits
      (fun _ _ => True) LeavesOpen fun _ => True := by
  have hlocal : LocalQuestions (fun _ => True) := ⟨trivial, trivial, trivial⟩
  refine (emits_now hlocal).bind fun now => emits_inTransaction hlocal ?_
  refine Emits.bind (emits_lockRows _ _ _ _) fun rows => ?_
  cases rows with
  | nil => trivial
  | cons r rest =>
    dsimp only
    split
    · exact (emits_emit _).mpr (failed_open error now r.2)
    · trivial

/-- The end of an attempt, once it has detected what remains. -/
def finishRepair (job : GapRepairJob) (c : RepairClaim) (remaining : List (ℤ × ℤ)) : Task Unit := do
  if !remaining.isEmpty then
    if ← hasStagedRows job then
      if !(← markAwaitingMerge c.jobId c.workerId c.leaseToken) then raise (.leaseLost c.jobId)
    else raise (.incompleteCoverage c.jobId)
  else
    if ← Task.ownershipLost then raise (.leaseLost c.jobId)
    if !(← markCompleteAndScheduleCagg job c.jobId c.workerId c.leaseToken) then
      raise (.leaseLost c.jobId)

theorem emits_finishRepair (job : GapRepairJob) {remaining : List (ℤ × ℤ)} (h : remaining ≠ []) :
    (finishRepair job c remaining).Emits (fun _ _ => True) LeavesOpen fun _ => True := by
  have hlocal : LocalQuestions (fun _ => True) := ⟨trivial, trivial, trivial⟩
  have hnonempty : remaining.isEmpty = false := List.isEmpty_eq_false_iff.mpr h
  unfold finishRepair
  rw [hnonempty, Bool.not_false, if_pos rfl]
  have hstaged : (hasStagedRows job).Emits (fun _ _ => True) LeavesOpen fun _ => True :=
    (emits_connection hlocal).bind fun _ => emits_view.bind fun d => trivial
  refine hstaged.bind fun staged => ?_
  cases staged with
  | true =>
    refine (emits_markAwaitingMerge _ _ _).bind fun marked => ?_
    cases marked <;> trivial
  | false => trivial

theorem yields_finishRepair (hans : Untroubled history ans) (hclaim : c.Holds ans d)
    {job : GapRepairJob} (hfresh : ∀ id, names ≤ id → d.caggJobs.lookup id = none)
    (hapart : Separate d.caggWindows) (hs : Between assetId d names s) :
    Yields ans (finishRepair job c []) s fun _ s' => s'.db.Completed c.jobId := by
  refine yields_query ?_
  rw [hans.owned]
  refine (yields_markComplete hans.calm hclaim hfresh hapart hs.answered).bind ?_
  rintro _ s' ⟨rfl, hcompleted⟩
  exact yields_pure hcompleted

theorem repairAttempt_eq (p : RepairParameters) (job : GapRepairJob) (c : RepairClaim) (fuel : ℕ) :
    repairAttempt p job c fuel = (do
      let gaps ← detectGaps p.settings job.assetId job.startTime job.endTime
      forEach (fun gap => do
        if ← Task.ownershipLost then raise (.leaseLost c.jobId)
        executeReconciliation job.assetId job.symbol gap.1 gap.2 p.batchSize (some c) fuel) gaps
      detectGaps p.settings job.assetId job.startTime job.endTime) >>= finishRepair job c := by
  simp only [bind_assoc]
  rfl

/-- The attempt detects in the end that nothing is missing exactly when the edges are covered. -/
theorem yields_repairAttempt {p : RepairParameters} {job : GapRepairJob} {fuel : ℕ}
    (h : Favourable history ans job.startTime job.endTime fuel) (hbatch : 0 < p.batchSize)
    (hclaim : c.Holds ans d) (hs : Between job.assetId d names s) :
    Yields ans (do
      let gaps ← detectGaps p.settings job.assetId job.startTime job.endTime
      forEach (fun gap => do
        if ← Task.ownershipLost then raise (.leaseLost c.jobId)
        executeReconciliation job.assetId job.symbol gap.1 gap.2 p.batchSize (some c) fuel) gaps
      detectGaps p.settings job.assetId job.startTime job.endTime) s fun remaining s' =>
        Between job.assetId d names s' ∧
          (remaining = [] ↔ EdgesCovered (covered job.assetId s) job.startTime job.endTime) := by
  have hlt := job.valid
  refine (yields_detectGaps h.untroubled.calm p.settings hlt).bind ?_
  rintro gaps s₁ ⟨rfl, rfl⟩
  have hreported := missing_reported s.view p.settings job.assetId hlt
  refine (yields_reconciliations h hbatch hclaim job.symbol hreported.inside hs.answered).bind ?_
  rintro _ s₂ ⟨hs₂, hcovered⟩
  refine (yields_detectGaps h.untroubled.calm p.settings hlt).mono ?_
  rintro remaining s₃ ⟨rfl, rfl⟩
  refine ⟨hs₂.answered, ?_⟩
  rw [missing_nil_iff hs₂.normal.normal p.settings hlt]
  exact hreported.filled_iff hs.normal.normal hlt hs₂.normal.normal hcovered

/-- What surrounds the prefix of an attempt does not depend on its success. -/
theorem run_settleAttempt {α : Type} {p : Task α} {f : α → Task Unit} {record : Failure → Task Unit}
    {raiseOnAttemptError : Bool} {a : α} {s' : Alone Database Write Lock}
    (h : run ans p s = some (.ok a, s')) :
    run ans (settleAttempt (p >>= f) record raiseOnAttemptError) s =
      run ans (settleAttempt (f a) record raiseOnAttemptError) s' := by
  unfold settleAttempt
  rw [run_bind, run_bind, run_attempt, run_attempt, run_ok h]

/-! ### The claim -/

theorem owned_claimed (workerId leaseToken : ℕ) {claimedAt expiry now : ℤ} (job : GapRepairJob)
    (h : now < expiry) : gapRepairJobs.owned now workerId leaseToken
      (gapRepairJobs.claimed ⟨workerId, leaseToken, claimedAt, expiry⟩ job) = true := by
  unfold JobTable.owned
  have hprocessing : gapRepairJobs.processing
      (gapRepairJobs.claimed ⟨workerId, leaseToken, claimedAt, expiry⟩ job) = true := rfl
  have hclaim : gapRepairJobs.claim (gapRepairJobs.claimed ⟨workerId, leaseToken, claimedAt, expiry⟩
      job) = some ⟨workerId, leaseToken, claimedAt, expiry⟩ := rfl
  rw [hprocessing, hclaim]
  simp [h]

theorem yields_lockRowsSkip_one {K ρ : Type} {lock : K → Lock} {row : Database → K → Option ρ} {k : K}
    {r : ρ} (h : row s.view k = some r) (ks : List K) :
    Yields ans (Task.lockRowsSkip lock row 1 (k :: ks)) s fun found s' =>
      found.1 = [(k, r)] ∧ s' = s.hold (lock k) := by
  refine ⟨([(k, r)], ks.isEmpty), s.hold (lock k), ?_, rfl, rfl⟩
  rw [Task.lockRowsSkip, run_bind, run_tryAcquire]
  dsimp only
  rw [if_pos rfl, run_bind, run_view]
  dsimp only
  rw [Alone.hold_view, h]
  cases ks <;> rfl

/-- Alone, the oldest ready job is claimed. -/
theorem yields_claimNext (hans : Calm ans) {leaseDuration : ℤ} {respectRetrySchedule : Bool}
    (workerId : ℕ) {jobId : ℕ} {rest : List ℕ} {job : GapRepairJob} (hlease : 0 < leaseDuration)
    (hnext : gapRepairJobs.oldest s.view (gapRepairJobs.ready (clockAt ans s.asked)
      respectRetrySchedule) = jobId :: rest)
    (hjob : s.view.gapJobs.lookup jobId = some job) :
    Yields ans (gapRepairJobs.claimNext workerId leaseDuration respectRetrySchedule) s fun claimed s' =>
      claimed = some (jobId, gapRepairJobs.claimed ⟨workerId, s.names, clockAt ans s.asked,
        clockAt ans s.asked + leaseDuration⟩ job, s.names) ∧
      s'.view = Store.apply (gapRepairJobs.put jobId (gapRepairJobs.claimed ⟨workerId, s.names,
        clockAt ans s.asked, clockAt ans s.asked + leaseDuration⟩ job))
        (Store.apply (Write.note (.claimed s.names)) s.view) ∧
      s'.view = s'.db ∧ s'.names = s.names + 1 := by
  unfold JobTable.claimNext
  rw [if_neg (not_le.mpr hlease)]
  dsimp only
  refine yields_query ?_
  obtain ⟨now, hnow⟩ : ∃ now, clockAt ans s.asked = now := ⟨_, rfl⟩
  have hasked : (ans s.asked .now : ℤ) = now := hnow
  rw [hasked, hnow]
  rw [hnow] at hnext
  refine yields_inTransaction_of hans (yields_view ?_)
  have hready : gapRepairJobs.ready now respectRetrySchedule job = true := by
    have hmem : jobId ∈ gapRepairJobs.oldest s.view
        (gapRepairJobs.ready now respectRetrySchedule) := hnext ▸ List.mem_cons_self
    unfold JobTable.oldest at hmem
    obtain ⟨e, he, rfl⟩ := List.mem_map.mp hmem
    obtain ⟨hrow, hcondition⟩ := List.mem_filter.mp (List.mem_insertionSort _ |>.mp he)
    have hlookup : s.view.gapJobs.lookup e.1 = some e.2 := AList.mem_lookup_iff.mpr hrow
    obtain rfl := Option.some.inj (hjob.symm.trans hlookup)
    exact hcondition
  have hselect : gapRepairJobs.select s.view (gapRepairJobs.ready now respectRetrySchedule) jobId =
      some job := by
    unfold JobTable.select
    have hrows : (gapRepairJobs.rows s.view).lookup jobId = some job := hjob
    rw [hrows, Option.filter_some, if_pos hready]
  rw [Alone.answered_view, Alone.answered_view, hnext]
  refine (yields_lockRowsSkip_one (s := s.answered.answered) hselect rest).bind ?_
  rintro ⟨rows, complete⟩ s₁ ⟨hrows, rfl⟩
  dsimp only at hrows
  rw [hrows]
  refine yields_draw (yields_emit (yields_emit (yields_pure ⟨rfl, ?_, rfl, rfl⟩)))
  rw [Alone.answered_view, Alone.committed_view, Alone.push_view, Alone.push_view]
  rfl

theorem NormalForm.of_tables {s' : Alone Database Write Lock} (h : NormalForm assetId s)
    (hraw : s'.view.raw = s.view.raw) (hranges : s'.view.syncRanges = s.view.syncRanges)
    (hnames : s.names ≤ s'.names) : NormalForm assetId s' ∧ covered assetId s' = covered assetId s := by
  have hcoverage : s'.view.coverage assetId = s.view.coverage assetId := by
    unfold Database.coverage
    rw [hranges]
  refine ⟨⟨h.tidy.grow hranges fun k hk => hraw ▸ hk, fun id hid => ?_, hcoverage ▸ h.normal⟩, ?_⟩
  · rw [hranges]
    exact h.fresh id (hnames.trans hid)
  · unfold covered
    rw [hcoverage]

theorem Database.not_completed {jobId : ℕ} {row : GapRepairJob} (h : d.gapJobs.lookup jobId = some row)
    (hstatus : row.status ≠ .completed) : ¬ d.Completed jobId := by
  rintro ⟨row', hrow, hcompleted⟩
  obtain rfl := Option.some.inj (h.symm.trans hrow)
  exact hstatus hcompleted

/-- A repair that nothing disturbs, of the oldest ready job, completes it exactly when the minutes
around the edges of its window are covered already or asked for. -/
theorem processNextGapJob_completes_iff {p : RepairParameters} {job : GapRepairJob} {jobId fuel : ℕ}
    {rest : List ℕ} (h : Favourable history ans job.startTime job.endTime fuel)
    (hbatch : 0 < p.batchSize)
    (hlease : ∀ n, clockAt ans n < clockAt ans s.asked + p.leaseDuration)
    (hs : NormalForm job.assetId s) (hsettled : s.view = s.db)
    (hfresh : ∀ id, s.names ≤ id → s.db.caggJobs.lookup id = none)
    (hapart : Separate s.db.caggWindows)
    (hnext : gapRepairJobs.oldest s.db (gapRepairJobs.ready (clockAt ans s.asked)
      p.respectRetrySchedule) = jobId :: rest)
    (hjob : s.db.gapJobs.lookup jobId = some job) :
    (∃ r s', run ans (processNextGapJob p fuel) s = some (r, s') ∧ s'.db.Completed jobId) ↔
      EdgesCovered (covered job.assetId s) job.startTime job.endTime := by
  have hduration : 0 < p.leaseDuration := by
    have hnow := hlease s.asked
    omega
  rw [← hsettled] at hnext hjob
  obtain ⟨claimed, s₁, hrun₁, rfl, hview₁, hsettled₁, hnames₁⟩ := yields_claimNext (s := s.drawn)
    h.untroubled.calm s.names hduration hnext hjob
  obtain ⟨row, hrow⟩ : ∃ row, gapRepairJobs.claimed ⟨s.names, s.drawn.names, clockAt ans s.drawn.asked,
      clockAt ans s.drawn.asked + p.leaseDuration⟩ job = row := ⟨_, rfl⟩
  rw [hrow] at hrun₁ hview₁
  have hstatus : row.status = .processing := by
    rw [← hrow]
    rfl
  have hlookup : s₁.view.gapJobs.lookup jobId = some row := by
    rw [hview₁]
    exact AList.lookup_insert _
  have hholds : RepairClaim.Holds ans s₁.db ⟨jobId, s.names, s.drawn.names⟩ := by
    intro n
    have howned : gapRepairJobs.owned (clockAt ans n) s.names s.drawn.names row = true :=
      hrow ▸ owned_claimed _ _ job (hlease n)
    unfold JobTable.select
    have hrows : (gapRepairJobs.rows s₁.db).lookup jobId = some row := hsettled₁ ▸ hlookup
    rw [hrows, Option.filter_some, if_pos howned]
    rfl
  have hraw : s₁.view.raw = s.view.raw := by
    rw [hview₁]
    rfl
  have hranges : s₁.view.syncRanges = s.view.syncRanges := by
    rw [hview₁]
    rfl
  have hlater : s.names ≤ s₁.names := by
    rw [hnames₁]
    exact Nat.le_succ_of_le (Nat.le_succ _)
  obtain ⟨hnormal, hcovered⟩ := hs.of_tables hraw hranges hlater
  have hbetween : Between job.assetId s₁.db s₁.names s₁ := ⟨hnormal, hsettled₁, rfl, rfl, le_rfl⟩
  have hwindow : (row.assetId, row.startTime, row.endTime) =
      (job.assetId, job.startTime, job.endTime) := by
    rw [← hrow]
    rfl
  obtain ⟨hasset, hstart, hstop⟩ : row.assetId = job.assetId ∧ row.startTime = job.startTime ∧
      row.endTime = job.endTime := by simpa using hwindow
  rw [← hasset] at hbetween
  rw [← hstart, ← hstop] at h
  obtain ⟨remaining, s₂, hrun₂, hs₂, hnone⟩ := yields_repairAttempt h hbatch hholds hbetween
  rw [hasset, hcovered, hstart, hstop] at hnone
  rw [← hnone]
  have hrest : run ans (processNextGapJob p fuel) s = run ans (do
      settleAttempt (finishRepair row ⟨jobId, s.names, s.drawn.names⟩ remaining)
        (fun error => gapRepairJobs.recordFailure jobId s.names s.drawn.names
          (GapRepairJob.failed error)) p.raiseOnAttemptError
      pure true) s₂ := by
    unfold processNextGapJob
    rw [run_bind, run_draw]
    dsimp only
    rw [run_ok hrun₁]
    dsimp only
    rw [repairAttempt_eq, run_bind, run_settleAttempt hrun₂, ← run_bind]
  rw [hrest]
  have hopen : ¬ s₂.db.Completed jobId := by
    have hrow₂ : s₂.db.gapJobs.lookup jobId = some row := by
      rw [hs₂.gapJobs, ← hsettled₁]
      exact hlookup
    refine Database.not_completed hrow₂ ?_
    rw [hstatus]
    exact fun h => by cases h
  constructor
  · rintro ⟨r, s₃, hrun₃, hcompleted⟩
    by_contra hremaining
    have hpure : ∀ _ : Unit, (pure true : Task Bool).Emits (fun _ _ => True) LeavesOpen
        fun _ => True := fun _ => trivial
    have hemits := (emits_settleAttempt (emits_finishRepair (c := ⟨jobId, s.names, s.drawn.names⟩) row
      hremaining) (emits_recordGapFailure jobId s.names s.drawn.names) p.raiseOnAttemptError).bind hpure
    exact (run_leavesOpen hemits hopen (hs₂.settled.symm ▸ hopen) hrun₃).1 hcompleted
  · rintro rfl
    have hfresh₁ : ∀ id, s₁.names ≤ id → s₁.db.caggJobs.lookup id = none := by
      intro id hid
      rw [← hsettled₁, hview₁]
      exact (congrArg (fun d : Database => d.caggJobs.lookup id) hsettled).trans
        (hfresh id (hlater.trans hid))
    have hapart₁ : Separate s₁.db.caggWindows := by
      rw [← hsettled₁, hview₁]
      exact (congrArg Database.caggWindows hsettled).symm ▸ hapart
    obtain ⟨_, s₃, hrun₃, hcompleted⟩ := yields_finishRepair h.untroubled hholds hfresh₁ hapart₁ hs₂
    refine ⟨.ok true, s₃, ?_, hcompleted⟩
    unfold settleAttempt
    rw [bind_assoc, run_bind, run_attempt, hrun₃]
    rfl

/-- A kline for every minute. -/
def everyMinute (t : ℤ) : Option Kline :=
  if t % minuteMs = 0 then some ⟨t, ⟨1, 1, 1, 1, 1⟩, none⟩ else none

theorem everyMinute_openTime (t : ℤ) (k : Kline) (h : everyMinute t = some k) :
    k.openTimeMs = t ∧ t % minuteMs = 0 := by
  unfold everyMinute at h
  split at h
  · rename_i ht
    cases h
    exact ⟨rfl, ht⟩
  · cases h

theorem everyMinute_valid (t : ℤ) (k : Kline) (h : everyMinute t = some k) :
    checkKline k.values = .ok () := by
  have hvalues : checkKline ⟨1, 1, 1, 1, 1⟩ = .ok () := by decide +kernel
  unfold everyMinute at h
  split at h
  · cases h
    exact hvalues
  · cases h

/-- An exchange with all minutes, at the epoch. -/
def fullExchange : ℕ → (q : Question) → Answer q
  | _, .now => (0 : ℤ)
  | _, .fault => (none : Option Failure)
  | _, .ownershipLost => false
  | _, .klines request => (⟨everyMinute, everyMinute_openTime, everyMinute_valid⟩ : History).page request

theorem favourable_fullExchange (start stop : ℤ) (hstart : 0 ≤ start) : Favourable
    ⟨everyMinute, everyMinute_openTime, everyMinute_valid⟩ fullExchange start stop
      ((milliseconds stop - milliseconds start).toNat + 1) := by
  constructor
  · exact ⟨fun _ => rfl, fun _ => rfl, fun _ _ => rfl⟩
  · intro t ht _ _
    have hvalid : Ohlcv.Valid ⟨1, 1, 1, 1, 1⟩ := by decide +kernel
    exact ⟨⟨t, ⟨1, 1, 1, 1, 1⟩, none⟩, if_pos ht, hvalid⟩
  · intro n
    have hnow : clockAt fullExchange n = 0 := rfl
    have hday : (0 : ℤ) < 7 * day := by decide
    rw [hnow]
    unfold milliseconds millisecond
    omega
  · exact Nat.lt_succ_self _

/-- A repair job, and nothing covered. -/
def oneRepair (start stop : ℤ) (valid : start < stop) : Database :=
  { gapJobs := AList.insert 0 { assetId := 1, symbol := "BTCUSDT", startTime := start, endTime := stop
                                createdAt := 0, valid := valid } ∅ }

theorem normalForm_oneRepair (start stop : ℤ) (valid : start < stop) :
    NormalForm 1 ({ db := oneRepair start stop valid, names := 1 } : Alone Database Write Lock) :=
  (@NormalForm.of_tables _ 1 { db := oneRepair start stop valid, names := 1 } normalForm_empty rfl rfl
    (Nat.zero_le _)).1

/-- A whole minute is repaired; a minute from the middle of one to the middle of the next is not. -/
theorem processNextGapJob_edges :
    ((∃ r s', run fullExchange (processNextGapJob {} 60001)
      { db := oneRepair 0 minute (by decide), names := 1 } = some (r, s') ∧ s'.db.Completed 0) ↔
      EdgesCovered (covered 1 { db := oneRepair 0 minute (by decide), names := 1 }) 0 minute) ∧
    ((∃ r s', run fullExchange (processNextGapJob {} 60001)
      { db := oneRepair (30 * second) (90 * second) (by decide), names := 1 } = some (r, s') ∧
        s'.db.Completed 0) ↔
      EdgesCovered (covered 1 { db := oneRepair (30 * second) (90 * second) (by decide), names := 1 })
        (30 * second) (90 * second)) := by
  have hlease : ∀ n, clockAt fullExchange n < clockAt fullExchange 0 + 5 * minute := by
    intro n
    have hnow : clockAt fullExchange n = 0 := rfl
    rw [hnow]
    decide
  constructor
  · exact @processNextGapJob_completes_iff _ _ _ _
      { assetId := 1, symbol := "BTCUSDT", startTime := 0, endTime := minute, createdAt := 0 } _ _ []
      (favourable_fullExchange 0 minute le_rfl) (by decide) hlease
      (normalForm_oneRepair 0 minute _) rfl (fun _ _ => rfl) (fun _ _ _ _ hv => by cases hv)
      (by decide +kernel) rfl
  · exact @processNextGapJob_completes_iff _ _ _ _
      { assetId := 1, symbol := "BTCUSDT", startTime := 30 * second, endTime := 90 * second
        createdAt := 0 } _ _ []
      (favourable_fullExchange (30 * second) (90 * second) (by decide)) (by decide) hlease
      (normalForm_oneRepair (30 * second) (90 * second) _) rfl (fun _ _ => rfl)
      (fun _ _ _ _ hv => by cases hv) (by decide +kernel) rfl

end
end Quantive.Candles
