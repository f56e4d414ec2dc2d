import Mathlib.Algebra.Order.Floor.Div
import Quantive.CappedScan
import Quantive.Candles.Scheduling
import Quantive.Candles.GapDetection
import Quantive.Keyset

/-!
# The gap scan

`scan_and_schedule_active_assets` over the pages of the active assets. The cap on jobs is a cap on
the list that the scan returns, while a gap around active jobs gets one row for every piece; and
every call starts at the first asset.
-/

namespace Quantive.Candles
open Quantive.ReadCommitted Prog

/-! ### The scan with what it inspects -/

section
variable (settings : GapRepairSettings) (bounds : ScanBounds) (startTime now : ℤ)

def scanAssetsTraced (maxJobs : ℕ) :
    List (ℕ × AssetRegistry) → ℕ → List ℕ → Task (ℕ × List ℕ)
  | [], scheduled, inspected => pure (scheduled, inspected)
  | asset :: assets, scheduled, inspected => do
    if maxJobs ≤ scheduled then pure (scheduled, inspected)
    else
      let gaps ← detectGaps settings asset.1 startTime now
      let scheduled ← scheduleGaps settings maxJobs asset.1 gaps scheduled
      scanAssetsTraced maxJobs assets scheduled (inspected ++ [asset.1])

def scanPagesTraced : ℕ → ℕ → ℕ → ℕ → List ℕ → Task (ℕ × List ℕ)
  | 0, _, _, _, _ => stuck
  | fuel + 1, lastAssetId, inspected, scheduled, trace => do
    if inspected < bounds.maxAssets ∧ scheduled < bounds.maxJobs then
      Task.connection
      let d ← view
      let assets := activeAssets d lastAssetId (min bounds.pageSize (bounds.maxAssets - inspected))
      match assets.getLast? with
      | none => pure (scheduled, trace)
      | some last =>
        let (scheduled, trace) ← scanAssetsTraced settings startTime now bounds.maxJobs assets
          scheduled trace
        scanPagesTraced fuel last.1 (inspected + assets.length) scheduled trace
    else pure (scheduled, trace)

/-- The scan, with the length of the list it returns and the assets whose gaps it detects. -/
def scanTraced (lookbackWindow : ℤ) : Task (ℕ × List ℕ) := do
  if lookbackWindow ≤ 0 then raise (.valueError "lookback_window must be positive")
  let now ← Task.now
  scanPagesTraced settings bounds (now - lookbackWindow) now (bounds.maxAssets + 1) 0 0 0 []

theorem scanAssetsTraced_erased (maxJobs : ℕ) (assets : List (ℕ × AssetRegistry)) (scheduled : ℕ)
    (inspected : List ℕ) :
    (do let r ← scanAssetsTraced settings startTime now maxJobs assets scheduled inspected
        pure r.1) = scanAssets settings maxJobs startTime now assets scheduled := by
  induction assets generalizing scheduled inspected with
  | nil => rfl
  | cons asset assets ih =>
    rw [scanAssetsTraced, scanAssets]
    split
    · rfl
    · simp only [bind_assoc, ih]

theorem scanPagesTraced_erased (fuel lastAssetId inspected scheduled : ℕ) (trace : List ℕ) :
    (do let _ ← scanPagesTraced settings bounds startTime now fuel lastAssetId inspected scheduled trace
        pure ()) = scanPages settings bounds startTime now fuel lastAssetId inspected scheduled := by
  induction fuel generalizing lastAssetId inspected scheduled trace with
  | zero => rfl
  | succ fuel ih =>
    rw [scanPagesTraced, scanPages]
    split
    · simp only [bind_assoc]
      refine congrArg (Task.connection >>= ·) (funext fun _ => congrArg (view >>= ·) (funext fun d => ?_))
      generalize activeAssets d lastAssetId (min bounds.pageSize (bounds.maxAssets - inspected)) = assets
      cases assets.getLast? with
      | none => rfl
      | some last =>
        simp only [bind_assoc, ih]
        rw [← scanAssetsTraced_erased _ _ _ _ _ _ trace]
        simp only [bind_assoc, pure_bind]
    · rfl

/-- Without the trace it is the scan. -/
theorem scanTraced_erased (lookbackWindow : ℤ) :
    (do let _ ← scanTraced settings bounds lookbackWindow
        pure ()) = scanAndScheduleActiveAssets settings bounds lookbackWindow := by
  unfold scanTraced scanAndScheduleActiveAssets
  split
  · rfl
  · simp only [bind_assoc, scanPagesTraced_erased]

end

/-! ### One gap -/

/-- A gap of an asset. -/
abbrev AssetGap := ℕ × ℤ × ℤ

/-- The rows that a gap gets. -/
def gapRows (settings : GapRepairSettings) (d : Database) (g : AssetGap) : ℕ :=
  (uncoveredPieces settings d g.1 g.2.1 g.2.2).length

/-- The jobs that the scan counts for a gap. -/
def gapCount (settings : GapRepairSettings) (d : Database) (g : AssetGap) : ℕ :=
  returnedJobs settings d g.1 g.2.1 g.2.2

def AssetGap.Apart (g h : AssetGap) : Prop := g.1 = h.1 → g.2.2 ≤ h.2.1 ∨ h.2.2 ≤ g.2.1

/-- What a scan leaves of `d` behind some gaps: one new row for each of their pieces. -/
structure Scanned (settings : GapRepairSettings) (d : Database) (gaps : List AssetGap) (db : Database)
    (names : ℕ) : Prop where
  others : db.assets = d.assets ∧ db.syncRanges = d.syncRanges
  fresh : ∀ id, names ≤ id → db.gapJobs.lookup id = none
  rows : ∃ new, db.gapJobs.entries = new ++ d.gapJobs.entries ∧
    new.length = (gaps.map (gapRows settings d)).sum ∧
    ∀ e ∈ new, ∃ g ∈ gaps, e.2.assetId = g.1 ∧ g.2.1 ≤ e.2.startTime ∧ e.2.endTime ≤ g.2.2

section
variable {settings : GapRepairSettings} {d db : Database} {gaps : List AssetGap} {names : ℕ}
  {s : Alone Database Write Lock} {ans : ℕ → (q : Question) → Answer q}

theorem Scanned.length (h : Scanned settings d gaps db names) :
    db.gapJobs.entries.length = d.gapJobs.entries.length + (gaps.map (gapRows settings d)).sum := by
  obtain ⟨new, hentries, hlength, -⟩ := h.rows
  rw [hentries, List.length_append, hlength, Nat.add_comm]

/-- The new rows do not meet a gap that is apart from theirs. -/
theorem Scanned.meeting (h : Scanned settings d gaps db names) {g : AssetGap}
    (hapart : ∀ g' ∈ gaps, g'.Apart g) :
    db.gapJobs.entries.filter (fun e => GapRepairJob.meets g.1 g.2.1 g.2.2 e.2) =
      d.gapJobs.entries.filter fun e => GapRepairJob.meets g.1 g.2.1 g.2.2 e.2 := by
  obtain ⟨new, hentries, -, hin⟩ := h.rows
  have hnone : new.filter (fun e => GapRepairJob.meets g.1 g.2.1 g.2.2 e.2) = [] := by
    refine List.filter_eq_nil_iff.mpr fun e he hmeets => ?_
    obtain ⟨g', hg', hasset, hstart, hstop⟩ := hin e he
    simp only [GapRepairJob.meets, Bool.and_eq_true, decide_eq_true_eq] at hmeets
    obtain ⟨⟨⟨hsame, -⟩, hbefore⟩, hafter⟩ := hmeets
    rcases hapart g' hg' (hasset.symm.trans hsame) with hle | hle <;> omega
  rw [hentries, List.filter_append, hnone, List.nil_append]

theorem Scanned.pieces (h : Scanned settings d gaps db names) {g : AssetGap}
    (hapart : ∀ g' ∈ gaps, g'.Apart g) :
    uncoveredPieces settings db g.1 g.2.1 g.2.2 = uncoveredPieces settings d g.1 g.2.1 g.2.2 ∧
      returnedJobs settings db g.1 g.2.1 g.2.2 = gapCount settings d g := by
  have hmeeting := h.meeting hapart
  have hjobs : activeGapJobs db g.1 g.2.1 g.2.2 = activeGapJobs d g.1 g.2.1 g.2.2 := by
    unfold activeGapJobs
    rw [hmeeting]
  have hwindows : overlappingWindows db g.1 g.2.1 g.2.2 = overlappingWindows d g.1 g.2.1 g.2.2 := by
    unfold overlappingWindows
    rw [hmeeting]
  have hpieces : uncoveredPieces settings db g.1 g.2.1 g.2.2 =
      uncoveredPieces settings d g.1 g.2.1 g.2.2 := by
    unfold uncoveredPieces
    rw [hjobs, hwindows]
  refine ⟨hpieces, ?_⟩
  unfold gapCount returnedJobs
  rw [hpieces, hjobs]

theorem uncoveredPieces_inside {start stop : ℤ} {assetId : ℕ} (hlt : start < stop) {w : ℤ × ℤ}
    (hw : w ∈ uncoveredPieces settings d assetId start stop) : start ≤ w.1 ∧ w.2 ≤ stop := by
  unfold uncoveredPieces at hw
  split at hw
  · cases hw
  · obtain ⟨hlow, -, hhigh⟩ := uncoveredIntervals_bounds hlt hw
    exact ⟨hlow, hhigh⟩

theorem ends_connection :
    Ends ans Task.connection s (fun _ s' => s' = s.answered) fun s' => s' = s.answered ∧ ¬ Calm ans := by
  unfold Task.connection
  refine ends_query ?_
  cases hfault : (ans s.asked .fault : Option Failure) with
  | none => exact ends_pure rfl
  | some failure =>
    refine ends_raise ⟨rfl, fun hcalm => ?_⟩
    rw [hcalm] at hfault
    cases hfault

/-- A transaction that raises left the database as it was, or it committed before. -/
theorem ends_inTransaction {α : Type} {body : Task α} {B : α → Database → ℕ → Prop}
    (h : Yields ans body s.answered fun a s' => B a s'.view s'.names) :
    Ends ans (Task.inTransaction body) s (fun a s' => B a s'.db s'.names ∧ s'.view = s'.db)
      fun s' => ¬ Calm ans ∧ (s'.db = s.db ∨ ∃ a, B a s'.db s'.names) := by
  unfold Task.inTransaction
  have hfirst : Ends ans Task.connection s (fun _ s' => s' = s.answered)
      (fun s' => ¬ Calm ans ∧ (s'.db = s.db ∨ ∃ a, B a s'.db s'.names)) :=
    ends_connection.mono (fun _ _ hs => hs) fun s' hs => ⟨hs.2, Or.inl (by rw [hs.1]; rfl)⟩
  refine hfirst.bind fun _ s₁ hs₁ => ?_
  subst hs₁
  have hbody : Yields ans (transaction body) s.answered
      fun a s' => B a s'.db s'.names ∧ s'.view = s'.db :=
    Yields.transaction (h.mono fun _ s' hs' => ⟨hs', rfl⟩)
  refine hbody.ends.bind fun a s₂ ⟨hs₂, hview⟩ => ?_
  have hlast : Ends ans Task.connection s₂ (fun _ s' => s' = s₂.answered)
      (fun s' => ¬ Calm ans ∧ (s'.db = s.db ∨ ∃ a, B a s'.db s'.names)) :=
    ends_connection.mono (fun _ _ hs => hs) fun s' hs => ⟨hs.2, Or.inr ⟨a, by rw [hs.1]; exact hs₂⟩⟩
  refine hlast.bind fun _ s₃ hs₃ => ?_
  subst hs₃
  exact ends_pure ⟨hs₂, hview⟩

/-- The transaction for a gap apart from those before adds the rows of its pieces. -/
theorem Scanned.added (h : Scanned settings d gaps db names) {g : AssetGap} (hlt : g.2.1 < g.2.2)
    (hapart : ∀ g' ∈ gaps, g'.Apart g) (hview : s.view = db) {s' : Alone Database Write Lock}
    (hadded : JobsAdded g.1 (uncoveredPieces settings db g.1 g.2.1 g.2.2) s s') :
    Scanned settings d (gaps ++ [g]) s'.view s'.names := by
  rw [(h.pieces hapart).1] at hadded
  obtain ⟨new, hentries, hlength, hin⟩ := h.rows
  obtain ⟨more, hmore, hcount, hmem⟩ := hadded.entries
  have hothers := hadded.others
  rw [hview] at hmore hothers
  refine ⟨⟨hothers.1.trans h.others.1, hothers.2.trans h.others.2⟩, hadded.fresh, more ++ new, ?_, ?_, ?_⟩
  · rw [hmore, hentries, List.append_assoc]
  · rw [List.map_append, List.sum_append, List.map_singleton, List.sum_singleton, List.length_append,
      hcount, hlength, Nat.add_comm]
    rfl
  · intro e he
    rcases List.mem_append.mp he with he | he
    · obtain ⟨hasset, hw⟩ := hmem e he
      obtain ⟨hlow, hhigh⟩ := uncoveredPieces_inside hlt hw
      exact ⟨g, by simp, hasset, hlow, hhigh⟩
    · obtain ⟨g', hg', hwithin⟩ := hin e he
      exact ⟨g', List.mem_append_left _ hg', hwithin⟩

/-- One call of `schedule_repair_jobs` for a gap apart from those before. -/
theorem Scanned.schedule (h : Scanned settings d gaps s.db s.names) (hsettled : s.view = s.db)
    {g : AssetGap} (hlt : g.2.1 < g.2.2) (hactive : d.Active g.1) (hapart : ∀ g' ∈ gaps, g'.Apart g) :
    Ends ans (scheduleRepairJobs settings g.1 g.2.1 g.2.2 5) s
      (fun jobs s' => (jobs.length = gapCount settings d g ∧
        Scanned settings d (gaps ++ [g]) s'.db s'.names) ∧ s'.view = s'.db)
      fun s' => ¬ Calm ans ∧ s'.db.gapJobs.entries.length ≤
        d.gapJobs.entries.length + ((gaps ++ [g]).map (gapRows settings d)).sum := by
  obtain ⟨body, hbody, hdoes⟩ := @scheduleRepairJobs_body ans settings g.1 g.2.1 g.2.2 5 hlt
  have hview : s.answered.view = s.db := hsettled
  have hactive' : s.answered.view.Active g.1 := by
    unfold Database.Active
    rw [hview, h.others.1]
    exact hactive
  have hyields : Yields ans body s.answered fun jobs s' => jobs.length = gapCount settings d g ∧
      Scanned settings d (gaps ++ [g]) s'.view s'.names := by
    refine (hdoes hactive').mono fun jobs s' ⟨⟨_, hjobs⟩, _, hadded⟩ => ?_
    rw [hview] at hjobs hadded
    exact ⟨hjobs.trans (h.pieces hapart).2, h.added hlt hapart hview (hadded h.fresh)⟩
  rw [hbody]
  have hends := ends_inTransaction (B := fun (jobs : List ℕ) db names =>
    jobs.length = gapCount settings d g ∧ Scanned settings d (gaps ++ [g]) db names) hyields
  refine hends.mono (fun _ _ hs' => hs') fun s' ⟨hfault, hs'⟩ => ⟨hfault, ?_⟩
  have hsum : ((gaps ++ [g]).map (gapRows settings d)).sum =
      (gaps.map (gapRows settings d)).sum + gapRows settings d g := by
    rw [List.map_append, List.sum_append, List.map_singleton, List.sum_singleton]
  rcases hs' with hdb | ⟨jobs, -, hscanned⟩
  · rw [hdb, h.length, hsum]
    omega
  · rw [hscanned.length]

/-! ### The gaps of an asset -/

/-- What `detect_gaps` finds. -/
def gapsOf (settings : GapRepairSettings) (d : Database) (assetId : ℕ) (start stop : ℤ) :
    List (ℤ × ℤ) :=
  if stop ≤ start then []
  else missingRanges (d.rangesIn assetId start stop) start stop settings.detection.maxRanges
    settings.detection.maxGaps

theorem gapsOf_listed (settings : GapRepairSettings) (d : Database) (assetId : ℕ) (start stop : ℤ) :
    Listed start stop settings.detection.maxGaps (gapsOf settings d assetId start stop) := by
  unfold gapsOf
  by_cases hle : stop ≤ start
  · rw [if_pos hle]
    exact ⟨by simp, by simp, List.Pairwise.nil, Nat.zero_le _⟩
  · have hdetects := (@detectMissingRanges_complete (fun _ => steady 0) { db := d } settings.detection
      assetId start stop (not_le.mp hle)).2
    rw [if_neg hle]
    exact (hdetects _ (List.Perm.refl _)).1

theorem ends_detectGaps {assetId : ℕ} {start stop : ℤ} {K : List (ℤ × ℤ) → Alone Database Write Lock → Prop}
    {E : Alone Database Write Lock → Prop} (hranges : s.view.syncRanges = d.syncRanges)
    (hsame : K (gapsOf settings d assetId start stop) s)
    (hasked : K (gapsOf settings d assetId start stop) s.answered) (hfault : ¬ Calm ans → E s.answered) :
    Ends ans (detectGaps settings assetId start stop) s K E := by
  unfold gapsOf at hsame hasked
  unfold detectGaps
  by_cases hle : stop ≤ start
  · rw [if_pos hle] at hsame ⊢
    exact ends_pure hsame
  · rw [if_neg hle] at hasked ⊢
    have hconnection : Ends ans Task.connection s (fun _ s' => s' = s.answered) E :=
      ends_connection.mono (fun _ _ h => h) fun s' ⟨h, hcalm⟩ => h ▸ hfault hcalm
    refine hconnection.bind fun _ s' hs' => ?_
    subst hs'
    unfold detectMissingRanges
    rw [if_neg hle]
    refine ends_view (ends_pure ?_)
    have hrows : s.answered.view.rangesIn assetId start stop = d.rangesIn assetId start stop := by
      unfold Database.rangesIn
      rw [Alone.answered_view, hranges]
    rwa [hrows]

/-- The loop over the gaps of an asset. -/
theorem ends_scheduleGaps {cap total n assetId : ℕ} (found : List (ℤ × ℤ))
    (h : Scanned settings d gaps s.db s.names) (hsettled : s.view = s.db) (hactive : d.Active assetId)
    (hlt : ∀ g ∈ found, g.1 < g.2)
    (hapart : (gaps ++ found.map (Prod.mk assetId)).Pairwise AssetGap.Apart)
    (htotal : ((gaps ++ reached cap (gapCount settings d) (found.map (Prod.mk assetId)) n).map
      (gapRows settings d)).sum ≤ total) :
    Ends ans (scheduleGaps settings cap assetId found n) s
      (fun n' s' => n' = tally cap (gapCount settings d) (found.map (Prod.mk assetId)) n ∧
        Scanned settings d (gaps ++ reached cap (gapCount settings d) (found.map (Prod.mk assetId)) n)
          s'.db s'.names ∧ s'.view = s'.db)
      fun s' => ¬ Calm ans ∧ s'.db.gapJobs.entries.length ≤ d.gapJobs.entries.length + total := by
  induction found generalizing gaps n s with
  | nil =>
    refine ends_pure ⟨rfl, ?_, hsettled⟩
    rw [List.map_nil, reached, List.append_nil]
    exact h
  | cons g found ih =>
    rw [scheduleGaps, List.map_cons, reached, tally]
    rw [List.map_cons, reached] at htotal
    by_cases hfull : cap ≤ n
    · rw [if_pos hfull, if_pos hfull, if_pos hfull]
      refine ends_pure ⟨rfl, ?_, hsettled⟩
      rwa [List.append_nil]
    · rw [if_neg hfull] at htotal
      rw [if_neg hfull, if_neg hfull, if_neg hfull]
      rw [List.map_cons, List.append_cons] at hapart
      rw [List.append_cons] at htotal ⊢
      have hbefore : ∀ g' ∈ gaps, g'.Apart (assetId, g) := by
        intro g' hg'
        have hfirst := (List.pairwise_append.mp (List.pairwise_append.mp hapart).1).2.2
        exact hfirst g' hg' _ (List.mem_singleton.mpr rfl)
      have hone := @Scanned.schedule settings d gaps s ans h hsettled (assetId, g)
        (hlt g List.mem_cons_self) hactive hbefore
      have hbound : ((gaps ++ [(assetId, g)]).map (gapRows settings d)).sum ≤ total := by
        rw [List.map_append, List.sum_append] at htotal
        omega
      have hone' := hone.mono (fun _ _ hs' => hs') fun s' hs' =>
        And.intro hs'.1 (hs'.2.trans (Nat.add_le_add_left hbound d.gapJobs.entries.length))
      refine hone'.bind fun jobs s' hs' => ?_
      obtain ⟨⟨hjobs, hscanned⟩, hview⟩ := hs'
      rw [List.length_take, hjobs]
      exact ih hscanned hview (fun g hg => hlt g (List.mem_cons_of_mem _ hg)) hapart htotal

/-! ### The assets of a page -/

def assetGaps (settings : GapRepairSettings) (d : Database) (start stop : ℤ)
    (asset : ℕ × AssetRegistry) : List AssetGap :=
  (gapsOf settings d asset.1 start stop).map (Prod.mk asset.1)

/-- The gaps of some assets, in the order of the scan. -/
def scanGaps (settings : GapRepairSettings) (d : Database) (start stop : ℤ)
    (assets : List (ℕ × AssetRegistry)) : List AssetGap :=
  assets.flatMap (assetGaps settings d start stop)

/-- What a loop of the scan leaves: the count, the rows, and below the cap the assets it went through. -/
structure ScannedTo (settings : GapRepairSettings) (d : Database) (cap : ℕ) (before more : List AssetGap)
    (n : ℕ) (trace assets : List ℕ) (r : ℕ × List ℕ) (s : Alone Database Write Lock) : Prop where
  count : r.1 = tally cap (gapCount settings d) more n
  scanned : Scanned settings d (before ++ reached cap (gapCount settings d) more n) s.db s.names
  settled : s.view = s.db
  inspected : r.1 < cap → r.2 = trace ++ assets

theorem ends_scanAssetsTraced {cap total n : ℕ} {start stop : ℤ} {trace : List ℕ}
    (assets : List (ℕ × AssetRegistry)) (h : Scanned settings d gaps s.db s.names)
    (hsettled : s.view = s.db) (hactive : ∀ a ∈ assets, d.Active a.1)
    (hapart : (gaps ++ scanGaps settings d start stop assets).Pairwise AssetGap.Apart)
    (htotal : ((gaps ++ reached cap (gapCount settings d) (scanGaps settings d start stop assets) n).map
      (gapRows settings d)).sum ≤ total) :
    Ends ans (scanAssetsTraced settings start stop cap assets n trace) s
      (ScannedTo settings d cap gaps (scanGaps settings d start stop assets) n trace (assets.map (·.1)))
      fun s' => ¬ Calm ans ∧ s'.db.gapJobs.entries.length ≤ d.gapJobs.entries.length + total := by
  induction assets generalizing gaps n s trace with
  | nil =>
    refine ends_pure ⟨rfl, ?_, hsettled, fun _ => (List.append_nil trace).symm⟩
    rw [scanGaps, List.flatMap_nil, reached, List.append_nil]
    exact h
  | cons a assets ih =>
    have hsplit : scanGaps settings d start stop (a :: assets) =
        assetGaps settings d start stop a ++ scanGaps settings d start stop assets := List.flatMap_cons
    rw [hsplit] at hapart htotal ⊢
    rw [scanAssetsTraced]
    by_cases hfull : cap ≤ n
    · rw [if_pos hfull]
      refine ends_pure ⟨(tally_full hfull _).symm, ?_, hsettled, fun hlt => ?_⟩
      · rwa [reached_full hfull, List.append_nil]
      · dsimp only at hlt
        omega
    · rw [if_neg hfull]
      rw [reached_append, ← List.append_assoc] at htotal
      rw [← List.append_assoc] at hapart
      obtain ⟨hfirst, hnext, hcross⟩ := List.pairwise_append.mp hapart
      have hschedule : ∀ s' : Alone Database Write Lock, s'.db = s.db → s'.names = s.names →
          s'.view = s'.db → Ends ans (scheduleGaps settings cap a.1 (gapsOf settings d a.1 start stop) n) s'
          (fun n' s'' => n' = tally cap (gapCount settings d) (assetGaps settings d start stop a) n ∧
            Scanned settings d (gaps ++ reached cap (gapCount settings d) (assetGaps settings d start stop a) n)
              s''.db s''.names ∧ s''.view = s''.db)
          fun s'' => ¬ Calm ans ∧ s''.db.gapJobs.entries.length ≤ d.gapJobs.entries.length + total := by
        intro s' hdb hnames hview
        refine ends_scheduleGaps _ (by rwa [hdb, hnames]) hview (hactive a List.mem_cons_self)
          (gapsOf_listed settings d a.1 start stop).nonempty hfirst ?_
        rw [List.map_append, List.sum_append] at htotal
        exact (Nat.le_add_right _ _).trans htotal
      have hdetect := @ends_detectGaps settings d s ans a.1 start stop
        (fun found s' => found = gapsOf settings d a.1 start stop ∧ s'.db = s.db ∧ s'.names = s.names ∧
          s'.view = s'.db)
        (fun s' => ¬ Calm ans ∧ s'.db.gapJobs.entries.length ≤ d.gapJobs.entries.length + total)
        (by rw [hsettled, h.others.2]) ⟨rfl, rfl, rfl, hsettled⟩ ⟨rfl, rfl, rfl, hsettled⟩
        fun hfault => ⟨hfault, ?_⟩
      · refine hdetect.bind fun found s₁ hs₁ => ?_
        obtain ⟨rfl, hdb, hnames, hview⟩ := hs₁
        refine (hschedule s₁ hdb hnames hview).bind fun n' s₂ hs₂ => ?_
        obtain ⟨hn', hscanned, hview₂⟩ := hs₂
        have hapart' : (gaps ++ reached cap (gapCount settings d) (assetGaps settings d start stop a) n ++
            scanGaps settings d start stop assets).Pairwise AssetGap.Apart := by
          refine List.Pairwise.sublist ?_ hapart
          exact (reached_sublist.append_left gaps).append_right _
        rw [hn']
        refine (ih hscanned hview₂ (fun a' ha' => hactive a' (List.mem_cons_of_mem _ ha')) hapart'
          htotal).mono (fun r s' hr => ?_) fun _ hs' => hs'
        refine ⟨?_, ?_, hr.settled, fun hlt => ?_⟩
        · rw [hr.count, tally_append]
        · have hscanned' := hr.scanned
          rwa [List.append_assoc, ← reached_append] at hscanned'
        · rw [hr.inspected hlt, List.map_cons, List.append_assoc]
          rfl
      · show s.db.gapJobs.entries.length ≤ _
        rw [h.length]
        rw [List.map_append, List.sum_append, List.map_append, List.sum_append] at htotal
        omega

/-! ### The pages -/

/-- The active assets of the exchange, by id. -/
def exchangeAssets (d : Database) : List (ℕ × AssetRegistry) :=
  ((d.assets.entries.filter fun e => e.2.isActive && e.2.exchange = "BINANCE").map
    fun e => (e.1, e.2)).insertionSort fun r s => r.1 ≤ s.1

/-- The assets within the cap of one call. -/
def firstAssets (maxAssets : ℕ) (d : Database) : List (ℕ × AssetRegistry) :=
  (afterCursor Prod.fst (exchangeAssets d) (some 0)).take maxAssets

theorem sort_ids_increasing {rows : List (ℕ × AssetRegistry)} (hnodup : (rows.map (·.1)).Nodup) :
    (rows.insertionSort fun r s => r.1 ≤ s.1).Pairwise fun r s => r.1 < s.1 := by
  have hsorted := List.pairwise_insertionSort (fun r s : ℕ × AssetRegistry => r.1 ≤ s.1) rows
  have hperm := List.perm_insertionSort (fun r s : ℕ × AssetRegistry => r.1 ≤ s.1) rows
  have hdistinct := List.pairwise_map.mp ((hperm.map (·.1)).nodup_iff.mpr hnodup)
  exact (hsorted.and hdistinct).imp fun h => lt_of_le_of_ne h.1 h.2

theorem asset_ids_nodup (d : Database) (p : (Sigma fun _ : ℕ => AssetRegistry) → Bool) :
    (((d.assets.entries.filter p).map fun e => (e.1, e.2)).map (·.1)).Nodup := by
  rw [List.map_map]
  exact d.assets.keys_nodup.sublist (List.filter_sublist.map _)

theorem exchangeAssets_increasing (d : Database) :
    (exchangeAssets d).Pairwise fun r s => r.1 < s.1 :=
  sort_ids_increasing (asset_ids_nodup d _)

theorem exchangeAssets_active {a : ℕ × AssetRegistry} (h : a ∈ exchangeAssets d) : d.Active a.1 := by
  obtain ⟨e, he, rfl⟩ := List.mem_map.mp ((List.mem_insertionSort _).mp h)
  obtain ⟨hmem, hactive⟩ := List.mem_filter.mp he
  simp only [Bool.and_eq_true, decide_eq_true_eq] at hactive
  exact ⟨e.2, AList.mem_lookup_iff.mpr hmem, hactive.2, hactive.1⟩

/-- A page is what follows the cursor. -/
theorem activeAssets_eq (hassets : db.assets = d.assets) (lastAssetId limit : ℕ) :
    activeAssets db lastAssetId limit =
      (afterCursor Prod.fst (exchangeAssets d) (some lastAssetId)).take limit := by
  unfold activeAssets afterCursor
  rw [hassets]
  congr 1
  have hleft := sort_ids_increasing (asset_ids_nodup d fun e => e.2.isActive &&
    e.2.exchange = "BINANCE" && lastAssetId < e.1)
  have hright : ((exchangeAssets d).filter fun r => lastAssetId < r.1).Pairwise fun r s => r.1 < s.1 :=
    (exchangeAssets_increasing d).sublist List.filter_sublist
  refine List.Perm.eq_of_pairwise (fun r s _ _ hrs hsr => absurd hsr hrs.asymm) hleft hright ?_
  refine (List.perm_insertionSort _ _).trans ?_
  have hfilter : ((d.assets.entries.filter fun e => e.2.isActive && e.2.exchange = "BINANCE" &&
      lastAssetId < e.1).map fun e => (e.1, e.2)) =
      ((d.assets.entries.filter fun e => e.2.isActive && e.2.exchange = "BINANCE").map
        fun e => (e.1, e.2)).filter fun r => lastAssetId < r.1 := by
    rw [List.filter_map, List.filter_filter]
    congr 1
    refine List.filter_congr fun e _ => ?_
    simp only [Function.comp_apply]
    exact Bool.and_comm _ _
  rw [hfilter]
  exact ((List.perm_insertionSort _ _).symm.filter _)

/-- Gaps of one asset are apart, and so are those of different assets. -/
theorem scanGaps_apart {start stop : ℤ} {assets : List (ℕ × AssetRegistry)}
    (h : assets.Pairwise fun r s => r.1 < s.1) :
    (scanGaps settings d start stop assets).Pairwise AssetGap.Apart := by
  unfold scanGaps
  refine List.pairwise_flatMap.mpr ⟨fun a _ => ?_, h.imp fun {a b} hlt g hg g' hg' => ?_⟩
  · refine List.pairwise_map.mpr ((gapsOf_listed settings d a.1 start stop).apart.imp fun hle _ => ?_)
    exact Or.inl hle
  · obtain ⟨w, -, rfl⟩ := List.mem_map.mp hg
    obtain ⟨w', -, rfl⟩ := List.mem_map.mp hg'
    exact fun heq => absurd heq (Nat.ne_of_lt hlt)

theorem ScannedTo.append {cap n : ℕ} {before xs ys : List AssetGap} {trace as bs : List ℕ}
    {r r' : ℕ × List ℕ} {s s' : Alone Database Write Lock}
    (h : ScannedTo settings d cap before xs n trace as r s)
    (h' : ScannedTo settings d cap (before ++ reached cap (gapCount settings d) xs n) ys r.1 r.2 bs r' s') :
    ScannedTo settings d cap before (xs ++ ys) n trace (as ++ bs) r' s' := by
  refine ⟨?_, ?_, h'.settled, fun hlt => ?_⟩
  · rw [h'.count, h.count, tally_append]
  · have hscanned := h'.scanned
    rwa [h.count, List.append_assoc, ← reached_append] at hscanned
  · have hbelow : r.1 < cap := by
      by_contra hfull
      rw [h'.count, tally_full (not_lt.mp hfull)] at hlt
      exact hfull hlt
    rw [h'.inspected hlt, h.inspected hbelow, List.append_assoc]

theorem ScannedTo.refl {cap n : ℕ} {before xs : List AssetGap} {trace as : List ℕ}
    {s : Alone Database Write Lock} (h : Scanned settings d before s.db s.names) (hsettled : s.view = s.db)
    (hdone : cap ≤ n ∨ xs = [] ∧ as = []) :
    ScannedTo settings d cap before xs n trace as (n, trace) s := by
  rcases hdone with hfull | ⟨rfl, rfl⟩
  · refine ⟨(tally_full hfull _).symm, ?_, hsettled, fun hlt => absurd hlt (not_lt.mpr hfull)⟩
    rwa [reached_full hfull, List.append_nil]
  · refine ⟨rfl, ?_, hsettled, fun _ => (List.append_nil trace).symm⟩
    rwa [reached, List.append_nil]

/-- The pages from a cursor on. -/
theorem ends_scanPagesTraced {bounds : ScanBounds} {start stop : ℤ} {total : ℕ} {fuel : ℕ}
    {done rest : List (ℕ × AssetRegistry)} {lastAssetId inspected n : ℕ} {trace : List ℕ}
    (hassets : exchangeAssets d = done ++ rest)
    (hcursor : afterCursor Prod.fst (exchangeAssets d) (some lastAssetId) = rest)
    (hfuel : bounds.maxAssets - inspected < fuel) (h : Scanned settings d gaps s.db s.names)
    (hsettled : s.view = s.db)
    (hapart : (gaps ++ scanGaps settings d start stop (rest.take (bounds.maxAssets - inspected))).Pairwise
      AssetGap.Apart)
    (htotal : ((gaps ++ reached bounds.maxJobs (gapCount settings d)
      (scanGaps settings d start stop (rest.take (bounds.maxAssets - inspected))) n).map
        (gapRows settings d)).sum ≤ total) :
    Ends ans (scanPagesTraced settings bounds start stop fuel lastAssetId inspected n trace) s
      (ScannedTo settings d bounds.maxJobs gaps
        (scanGaps settings d start stop (rest.take (bounds.maxAssets - inspected))) n trace
        ((rest.take (bounds.maxAssets - inspected)).map (·.1)))
      fun s' => ¬ Calm ans ∧ s'.db.gapJobs.entries.length ≤ d.gapJobs.entries.length + total := by
  induction fuel generalizing done rest lastAssetId inspected n trace gaps s with
  | zero => omega
  | succ fuel ih =>
    rw [scanPagesTraced]
    by_cases hgo : inspected < bounds.maxAssets ∧ n < bounds.maxJobs
    swap
    · rw [if_neg hgo]
      refine ends_pure (ScannedTo.refl h hsettled ?_)
      by_cases hfull : bounds.maxJobs ≤ n
      · exact Or.inl hfull
      · have hnone : bounds.maxAssets - inspected = 0 := by omega
        rw [hnone, List.take_zero]
        exact Or.inr ⟨rfl, rfl⟩
    rw [if_pos hgo]
    have hconnection : Ends ans Task.connection s (fun _ s' => s' = s.answered) fun s' =>
        ¬ Calm ans ∧ s'.db.gapJobs.entries.length ≤ d.gapJobs.entries.length + total := by
      refine ends_connection.mono (fun _ _ hs' => hs') fun s' ⟨hs', hfault⟩ => ⟨hfault, ?_⟩
      rw [hs', Alone.answered_db, h.length]
      rw [List.map_append, List.sum_append] at htotal
      omega
    refine hconnection.bind fun _ s₁ hs₁ => ?_
    subst hs₁
    refine ends_view ?_
    have hview : s.answered.view.assets = d.assets := by
      rw [Alone.answered_view, hsettled, h.others.1]
    have hsize := bounds.positive.2.2
    rw [activeAssets_eq hview, hcursor]
    -- the window is this page and what is left of it behind
    have hwindow : rest.take (bounds.maxAssets - inspected) =
        rest.take (min bounds.pageSize (bounds.maxAssets - inspected)) ++
          (rest.drop (min bounds.pageSize (bounds.maxAssets - inspected))).take
            (bounds.maxAssets - (inspected +
              (rest.take (min bounds.pageSize (bounds.maxAssets - inspected))).length)) := by
      rw [List.length_take]
      by_cases hshort : rest.length ≤ min bounds.pageSize (bounds.maxAssets - inspected)
      · rw [List.drop_of_length_le hshort, List.take_nil, List.append_nil,
          List.take_of_length_le hshort, List.take_of_length_le (by omega)]
      · have hsum : bounds.maxAssets - inspected =
            min bounds.pageSize (bounds.maxAssets - inspected) + (bounds.maxAssets - (inspected +
              min (min bounds.pageSize (bounds.maxAssets - inspected)) rest.length)) := by omega
        conv_lhs => rw [hsum, List.take_add]
    generalize hpage : rest.take (min bounds.pageSize (bounds.maxAssets - inspected)) = page at *
    cases hlast : page.getLast? with
    | none =>
      have hnil := List.getLast?_eq_none_iff.mp hlast
      have hrest : rest = [] := by
        rw [hnil] at hpage
        rcases List.take_eq_nil_iff.mp hpage with hzero | hrest
        · omega
        · exact hrest
      simp only [hlast]
      rw [hrest, List.take_nil]
      exact ends_pure (ScannedTo.refl h hsettled (Or.inr ⟨rfl, rfl⟩))
    | some last =>
      obtain ⟨init, hinit⟩ : ∃ init, page = init ++ [last] := List.getLast?_eq_some_iff.mp hlast
      have hbehind : exchangeAssets d = (done ++ page) ++
          rest.drop (min bounds.pageSize (bounds.maxAssets - inspected)) := by
        rw [hassets, List.append_assoc, ← hpage, List.take_append_drop]
      have hsplit : scanGaps settings d start stop (rest.take (bounds.maxAssets - inspected)) =
          scanGaps settings d start stop page ++ scanGaps settings d start stop
            ((rest.drop (min bounds.pageSize (bounds.maxAssets - inspected))).take
              (bounds.maxAssets - (inspected + page.length))) := by
        rw [hwindow]
        exact List.flatMap_append
      rw [hsplit, ← List.append_assoc] at hapart
      rw [hsplit, reached_append, ← List.append_assoc] at htotal
      have hactive : ∀ a ∈ page, d.Active a.1 := fun a ha =>
        exchangeAssets_active (hbehind ▸ List.mem_append_left _ (List.mem_append_right _ ha))
      have hscan : Ends ans (scanAssetsTraced settings start stop bounds.maxJobs page n trace) s.answered
          (ScannedTo settings d bounds.maxJobs gaps (scanGaps settings d start stop page) n trace
            (page.map (·.1)))
          fun s' => ¬ Calm ans ∧ s'.db.gapJobs.entries.length ≤ d.gapJobs.entries.length + total := by
        refine ends_scanAssetsTraced page h hsettled hactive (List.pairwise_append.mp hapart).1 ?_
        rw [List.map_append, List.sum_append] at htotal
        exact (Nat.le_add_right _ _).trans htotal
      simp only [hlast]
      refine hscan.bind fun r s₂ hr => ?_
      obtain ⟨count, seen⟩ := r
      have hnext : afterCursor Prod.fst (exchangeAssets d) (some last.1) =
          rest.drop (min bounds.pageSize (bounds.maxAssets - inspected)) := by
        have hbehind' : exchangeAssets d = (done ++ init) ++ last ::
            rest.drop (min bounds.pageSize (bounds.maxAssets - inspected)) := by
          rw [hbehind, hinit]
          simp
        rw [hbehind']
        exact afterCursor_append (hbehind' ▸ exchangeAssets_increasing d)
      have hpos : 0 < page.length := by
        rw [hinit, List.length_append, List.length_singleton]
        omega
      have hcount := hr.count
      dsimp only at hcount
      have hless : bounds.maxAssets - (inspected + page.length) < fuel := by omega
      refine Ends.mono (ih hbehind hnext hless hr.scanned hr.settled ?_ ?_) (fun r' s' hr' => ?_)
        fun _ hs' => hs'
      · refine List.Pairwise.sublist ?_ hapart
        exact (reached_sublist.append_left gaps).append_right _
      · rw [hcount]
        exact htotal
      · rw [hsplit, hwindow, List.map_append]
        exact hr.append hr'

/-! ### The rows of a scan -/

theorem scanGaps_of_le {start stop : ℤ} (hle : stop ≤ start) (assets : List (ℕ × AssetRegistry)) :
    scanGaps settings d start stop assets = [] := by
  unfold scanGaps assetGaps gapsOf
  simp [hle]

/-- The gaps of a scan, in its order. -/
def gapsInScan (settings : GapRepairSettings) (bounds : ScanBounds) (lookbackWindow now : ℤ)
    (d : Database) : List AssetGap :=
  scanGaps settings d (now - lookbackWindow) now (firstAssets bounds.maxAssets d)

theorem ends_scanTraced {bounds : ScanBounds} {lookbackWindow now : ℤ} {names : ℕ}
    (hnow : ans 0 .now = now) (hfresh : ∀ id, names ≤ id → d.gapJobs.lookup id = none) :
    Ends ans (scanTraced settings bounds lookbackWindow) { db := d, names := names }
      (ScannedTo settings d bounds.maxJobs [] (gapsInScan settings bounds lookbackWindow now d) 0 []
        ((firstAssets bounds.maxAssets d).map (·.1)))
      fun s' => (lookbackWindow ≤ 0 ∨ ¬ Calm ans) ∧ s'.db.gapJobs.entries.length ≤
        d.gapJobs.entries.length + ((reached bounds.maxJobs (gapCount settings d)
          (gapsInScan settings bounds lookbackWindow now d) 0).map (gapRows settings d)).sum := by
  unfold scanTraced
  by_cases hle : lookbackWindow ≤ 0
  · rw [if_pos hle]
    exact ends_raise ⟨Or.inl hle, Nat.le_add_right _ _⟩
  · rw [if_neg hle]
    refine ends_query ?_
    change ans 0 .now = now at hnow
    dsimp only
    rw [hnow]
    have hstart : Scanned settings d [] d names :=
      ⟨⟨rfl, rfl⟩, hfresh, [], rfl, rfl, fun _ he => absurd he List.not_mem_nil⟩
    obtain ⟨done, hdone⟩ : ∃ done, exchangeAssets d = done ++
        afterCursor Prod.fst (exchangeAssets d) (some 0) :=
      afterCursor_suffix (exchangeAssets_increasing d) _
    have hpages := @ends_scanPagesTraced settings d [] ({ db := d, names := names } : Alone Database Write
      Lock).answered ans bounds (now - lookbackWindow) now _ (bounds.maxAssets + 1) done _ 0 0 0 [] hdone rfl
      (by omega) hstart rfl ?_ le_rfl
    · exact hpages.mono (fun _ _ h => h) fun s' ⟨hfault, hs'⟩ => ⟨Or.inr hfault, hs'⟩
    · rw [List.nil_append]
      refine scanGaps_apart (List.Pairwise.sublist ?_ (exchangeAssets_increasing d))
      exact (List.take_sublist _ _).trans List.filter_sublist

theorem ends_scan {bounds : ScanBounds} {lookbackWindow now : ℤ} {names : ℕ}
    (hnow : ans 0 .now = now) (hfresh : ∀ id, names ≤ id → d.gapJobs.lookup id = none) :
    Ends ans (scanAndScheduleActiveAssets settings bounds lookbackWindow) { db := d, names := names }
      (fun _ s' => s'.db.gapJobs.entries.length = d.gapJobs.entries.length +
        ((reached bounds.maxJobs (gapCount settings d)
          (gapsInScan settings bounds lookbackWindow now d) 0).map (gapRows settings d)).sum)
      fun s' => (lookbackWindow ≤ 0 ∨ ¬ Calm ans) ∧ s'.db.gapJobs.entries.length ≤
        d.gapJobs.entries.length + ((reached bounds.maxJobs (gapCount settings d)
          (gapsInScan settings bounds lookbackWindow now d) 0).map (gapRows settings d)).sum := by
  rw [← scanTraced_erased]
  refine (ends_scanTraced hnow hfresh).bind fun r s' hr => ends_pure ?_
  exact hr.scanned.length

/-- A call creates at most `max_jobs` rows, whatever the connection does, exactly when at every gap
before which fewer jobs are counted the rows of the gaps so far and of this one stay within it. -/
theorem scan_cap_kept_iff (settings : GapRepairSettings) (bounds : ScanBounds) (lookbackWindow now : ℤ)
    (d : Database) (names : ℕ) (hfresh : ∀ id, names ≤ id → d.gapJobs.lookup id = none) :
    (∀ ans r s', ans 0 .now = now →
      run ans (scanAndScheduleActiveAssets settings bounds lookbackWindow) { db := d, names := names } =
        some (r, s') →
      s'.db.gapJobs.entries.length ≤ d.gapJobs.entries.length + bounds.maxJobs) ↔
    ∀ before g after, gapsInScan settings bounds lookbackWindow now d = before ++ g :: after →
      (before.map (gapCount settings d)).sum < bounds.maxJobs →
      (before.map (gapRows settings d)).sum + gapRows settings d g ≤ bounds.maxJobs := by
  have hsum := @reached_sum_le_iff _ bounds.maxJobs 0 (gapCount settings d) (gapRows settings d)
    (gapsInScan settings bounds lookbackWindow now d) 0 (Nat.zero_le _)
  simp only [Nat.zero_add] at hsum
  rw [← hsum]
  constructor
  · intro hall
    by_cases hle : lookbackWindow ≤ 0
    · unfold gapsInScan
      rw [scanGaps_of_le (by omega)]
      exact Nat.zero_le _
    · obtain ⟨a, s', hrun, hlength⟩ | ⟨e, s', -, hfault, -⟩ :=
        @ends_scan settings d (fun _ => steady now) bounds lookbackWindow now names rfl hfresh
      · have hcap := hall _ _ s' rfl hrun
        omega
      · exact absurd (calm_steady now) (hfault.resolve_left hle)
  · intro hcap ans r s' hnow hrun
    rcases (ends_scan hnow hfresh).outcome hrun with ⟨_, -, hlength⟩ | ⟨-, hlength⟩ <;> omega

end

theorem scan_cap_kept_around_one : ∃ r s',
    run (fun _ => steady 30) (scanAndScheduleActiveAssets {} { maxJobs := 2 } 30)
      { db := oneJob, names := 1 } = some (r, s') ∧
    s'.db.gapJobs.entries.length ≤ oneJob.gapJobs.entries.length + 2 := by
  have hgaps : gapsInScan {} { maxJobs := 2 } 30 30 oneJob = [(1, 0, 30)] := by decide +kernel
  have hends : (run (fun _ => steady 30) (scanAndScheduleActiveAssets {} { maxJobs := 2 } 30)
      { db := oneJob, names := 1 }).isSome = true := by
    decide +kernel
  obtain ⟨⟨r, s'⟩, hrun⟩ := Option.isSome_iff_exists.mp hends
  refine ⟨r, s', hrun, ?_⟩
  refine (scan_cap_kept_iff {} { maxJobs := 2 } 30 30 oneJob 1 oneJob_fresh).mpr ?_ _ r s' rfl hrun
  intro before g after hsplit _
  rw [hgaps] at hsplit
  obtain ⟨rfl, rfl⟩ : before = [] ∧ g = (1, 0, 30) := by
    cases before with
    | nil => exact ⟨rfl, (List.cons.inj hsplit).1.symm⟩
    | cons b before => simp at hsplit
  decide +kernel

/-- The gap around the active job of `oneJob` gets two rows under a cap of one job. -/
theorem scan_over_cap : ¬ ∀ (settings : GapRepairSettings) (bounds : ScanBounds) (lookbackWindow now : ℤ)
    (d : Database) (names : ℕ), (∀ id, names ≤ id → d.gapJobs.lookup id = none) →
    ∀ ans r s', ans 0 .now = now →
      run ans (scanAndScheduleActiveAssets settings bounds lookbackWindow) { db := d, names := names } =
        some (r, s') →
      s'.db.gapJobs.entries.length ≤ d.gapJobs.entries.length + bounds.maxJobs := by
  intro hall
  have hrows : ((run (fun _ => steady 30) (scanAndScheduleActiveAssets {} { maxJobs := 1 } 30)
      { db := oneJob, names := 1 }).map fun r => r.2.db.gapJobs.entries.length) = some 3 := by
    decide +kernel
  obtain ⟨⟨r, s'⟩, hrun, hlength⟩ := Option.map_eq_some_iff.mp hrows
  have hcap := hall {} { maxJobs := 1 } 30 30 oneJob 1 oneJob_fresh (fun _ => steady 30) r s' rfl hrun
  dsimp only at hlength
  rw [hlength] at hcap
  exact absurd hcap (by decide)

/-! ### The assets of a scan -/

/-- A call that ends with fewer jobs than the cap, and the assets that it inspects. -/
def ScanCall (settings : GapRepairSettings) (bounds : ScanBounds) (lookbackWindow : ℤ) (d : Database)
    (inspected : List ℕ) : Prop :=
  ∃ ans names count s', (∀ id, names ≤ id → d.gapJobs.lookup id = none) ∧
    run ans (scanTraced settings bounds lookbackWindow) { db := d, names := names } =
      some (.ok (count, inspected), s') ∧ count < bounds.maxJobs

section
variable {settings : GapRepairSettings} {bounds : ScanBounds} {lookbackWindow : ℤ} {d : Database}
  {seen : List ℕ}

/-- A call inspects the first assets, wherever the calls before it ended. -/
theorem ScanCall.inspected (h : ScanCall settings bounds lookbackWindow d seen) :
    seen = (firstAssets bounds.maxAssets d).map (·.1) := by
  obtain ⟨ans, names, count, s', hfresh, hrun, hlt⟩ := h
  obtain ⟨r, s'', hrun', hscanned⟩ | ⟨e, s'', hrun', -⟩ :=
    @ends_scanTraced settings d ans bounds lookbackWindow _ names rfl hfresh
  · rw [hrun] at hrun'
    cases hrun'
    exact hscanned.inspected hlt
  · rw [hrun] at hrun'
    cases hrun'

theorem firstAssets_ids (maxAssets : ℕ) (d : Database) :
    (firstAssets maxAssets d).map (·.1) =
      (((exchangeAssets d).map (·.1)).filter (0 < ·)).take maxAssets := by
  unfold firstAssets afterCursor
  rw [List.map_take, List.filter_map]
  rfl

/-- As many calls as there are pages of `max_assets` assets inspect every asset exactly when one call
does. -/
theorem scan_reaches_iff (settings : GapRepairSettings) (bounds : ScanBounds) (lookbackWindow : ℤ)
    (ids : List ℕ) (calls : List (Database × List ℕ))
    (hlength : calls.length = ids.length ⌈/⌉ bounds.maxAssets)
    (hcalls : ∀ c ∈ calls, ScanCall settings bounds lookbackWindow c.1 c.2 ∧
      (exchangeAssets c.1).map (·.1) = ids) :
    (∀ id ∈ ids, ∃ c ∈ calls, id ∈ c.2) ↔ ids.length ≤ bounds.maxAssets ∧ 0 ∉ ids := by
  have hseen : ∀ c ∈ calls, c.2 = (ids.filter (0 < ·)).take bounds.maxAssets := by
    intro c hc
    obtain ⟨hcall, hids⟩ := hcalls c hc
    rw [hcall.inspected, firstAssets_ids, hids]
  have hpos := bounds.positive.1
  constructor
  · intro hall
    have hsubset : ids ⊆ (ids.filter (0 < ·)).take bounds.maxAssets := by
      intro id hid
      obtain ⟨c, hc, hmem⟩ := hall id hid
      rwa [hseen c hc] at hmem
    refine ⟨?_, fun hzero => ?_⟩
    · cases calls with
      | nil =>
        have hnil : ids = [] := by
          by_contra hne
          obtain ⟨id, hid⟩ := List.exists_mem_of_ne_nil ids hne
          obtain ⟨c, hc, -⟩ := hall id hid
          exact absurd hc List.not_mem_nil
        rw [hnil]
        exact Nat.zero_le _
      | cons c calls =>
        have hnodup : ids.Nodup := by
          rw [← (hcalls c List.mem_cons_self).2]
          exact List.pairwise_map.mpr ((exchangeAssets_increasing c.1).imp fun h => h.ne)
        exact (hnodup.subperm hsubset).length_le.trans (List.length_take_le _ _)
    · have hmem := List.mem_of_mem_take (hsubset hzero)
      simpa using (List.mem_filter.mp hmem).2
  · rintro ⟨hfits, hzero⟩ id hid
    have hnonempty : calls ≠ [] := by
      rintro rfl
      have hone : 1 ≤ ids.length ⌈/⌉ bounds.maxAssets := by
        refine Nat.one_le_iff_ne_zero.mpr fun hceil => ?_
        have hle := ceilDiv_le_iff_le_mul hpos |>.mp hceil.le
        have hlen := List.length_pos_of_mem hid
        omega
      rw [← hlength] at hone
      exact absurd hone (by decide)
    obtain ⟨c, hc⟩ := List.exists_mem_of_ne_nil calls hnonempty
    refine ⟨c, hc, ?_⟩
    have hall : ids.filter (0 < ·) = ids := by
      refine List.filter_eq_self.mpr fun i hi => ?_
      have hne : i ≠ 0 := fun heq => hzero (heq ▸ hi)
      simpa using Nat.pos_of_ne_zero hne
    rw [hseen c hc, hall, List.take_of_length_le hfits]
    exact hid

end

/-- A first asset whose data is complete, and a second one without any. -/
def behindTheCap : Database :=
  { assets := AList.insert 2 { symbol := "ETHUSDT" } (AList.insert 1 { symbol := "BTCUSDT" } ∅)
    syncRanges := AList.insert 0 { assetId := 1, startTimestamp := 0, endTimestamp := 30 } ∅ }

theorem behindTheCap_call (count : ℕ) {bounds : ScanBounds} {seen : List ℕ}
    (hrun : ((run (fun _ => steady 30) (scanTraced {} bounds 30) { db := behindTheCap }).map
      fun r => r.1.toOption) = some (some (count, seen))) (hlt : count < bounds.maxJobs) :
    ScanCall {} bounds 30 behindTheCap seen := by
  obtain ⟨⟨r, s'⟩, hr, hok⟩ := Option.map_eq_some_iff.mp hrun
  cases r with
  | error e => cases hok
  | ok r =>
    obtain rfl : r = (count, seen) := Option.some.inj hok
    exact ⟨fun _ => steady 30, 0, count, s', fun _ _ => rfl, hr, hlt⟩

theorem scan_reaches_two :
    (∃ c ∈ [(behindTheCap, [1, 2])], 1 ∈ c.2) ∧ ∃ c ∈ [(behindTheCap, [1, 2])], 2 ∈ c.2 := by
  have hcalls : ∀ c ∈ [(behindTheCap, [1, 2])], ScanCall {} { maxAssets := 2 } 30 c.1 c.2 ∧
      (exchangeAssets c.1).map (·.1) = [1, 2] := by
    intro c hc
    rw [List.mem_singleton.mp hc]
    exact ⟨behindTheCap_call 1 (by decide +kernel) (by decide), by decide +kernel⟩
  have hreached := (scan_reaches_iff {} { maxAssets := 2 } 30 [1, 2] [(behindTheCap, [1, 2])]
    (by decide) hcalls).mpr (by decide)
  exact ⟨hreached 1 (by decide), hreached 2 (by decide)⟩

/-- Two calls with room for one asset each inspect the first asset twice. -/
theorem scan_restarts : ¬ ∀ (settings : GapRepairSettings) (bounds : ScanBounds) (lookbackWindow : ℤ)
    (ids : List ℕ) (calls : List (Database × List ℕ)),
    calls.length = ids.length ⌈/⌉ bounds.maxAssets →
    (∀ c ∈ calls, ScanCall settings bounds lookbackWindow c.1 c.2 ∧
      (exchangeAssets c.1).map (·.1) = ids) →
    ∀ id ∈ ids, ∃ c ∈ calls, id ∈ c.2 := by
  intro hall
  have hcall : ScanCall {} { maxAssets := 1 } 30 behindTheCap [1] :=
    behindTheCap_call 0 (by decide +kernel) (by decide)
  have hids : (exchangeAssets behindTheCap).map (·.1) = [1, 2] := by decide +kernel
  obtain ⟨c, hc, hmem⟩ := hall {} { maxAssets := 1 } 30 [1, 2]
    [(behindTheCap, [1]), (behindTheCap, [1])] (by decide) (by simpa using ⟨hcall, hids⟩) 2 (by decide)
  simp only [List.mem_cons, List.not_mem_nil, or_false, or_self] at hc
  subst hc
  exact absurd hmem (by decide)

end Quantive.Candles
