import Quantive.Candles.BatchesAlone
import Quantive.SpacedIntervals

/-!
# Normal form of the coverage

The ranges of an asset stay more than a minute apart, and a batch adds exactly its minutes.
-/

namespace Quantive.Candles
open Quantive.ReadCommitted Prog

/-- The ranges of an asset. -/
def Database.coverage (d : Database) (assetId : ℕ) : Set (ℤ × ℤ) :=
  {p | ∃ id r, d.syncRanges.lookup id = some r ∧ r.assetId = assetId ∧
    (r.startTimestamp, r.endTimestamp) = p}

/-! ### Blocks -/

theorem blocksFrom_spec {start previous : ℤ} {rest : List ℤ} {blocks : List (ℤ × ℤ)}
    (h : blocksFrom start previous rest = .ok blocks) (hle : start ≤ previous)
    (hstart : minute ∣ start) (hprevious : minute ∣ previous) (hrest : ∀ t ∈ rest, minute ∣ t) :
    (∀ b ∈ blocks, minute ∣ b.1 ∧ minute ∣ b.2 ∧ b.1 ≤ b.2) ∧
    ∀ t, minute ∣ t → ((∃ b ∈ blocks, b.1 ≤ t ∧ t ≤ b.2) ↔ start ≤ t ∧ t ≤ previous ∨ t ∈ rest) := by
  induction rest generalizing start previous blocks with
  | nil =>
    cases h
    constructor
    · intro b hb
      obtain rfl := List.mem_singleton.mp hb
      exact ⟨hstart, hprevious, hle⟩
    · intro t _
      simp
  | cons current rest ih =>
    have hcurrent := hrest current List.mem_cons_self
    have htail : ∀ t ∈ rest, minute ∣ t := fun t ht => hrest t (List.mem_cons_of_mem _ ht)
    unfold blocksFrom at h
    split at h
    · cases h
    · rename_i hlt
      split at h
      · cases hblocks : blocksFrom current current rest with
        | error e =>
          rw [hblocks] at h
          cases h
        | ok later =>
          rw [hblocks] at h
          obtain rfl : (start, previous) :: later = blocks := Except.ok.inj h
          obtain ⟨hall, hpoints⟩ := ih hblocks le_rfl hcurrent hcurrent htail
          constructor
          · intro b hb
            rcases List.mem_cons.mp hb with rfl | hb
            · exact ⟨hstart, hprevious, hle⟩
            · exact hall b hb
          · intro t ht
            have hhere : current ≤ t ∧ t ≤ current ↔ t = current := by omega
            have hlater := hpoints t ht
            rw [hhere] at hlater
            rw [List.mem_cons, ← hlater]
            simp only [List.mem_cons, exists_eq_or_imp]
      · -- the next minute belongs to the same block
        rename_i hnext
        have hadjacent : current = previous + minute := by omega
        obtain ⟨hall, hpoints⟩ := ih h (by omega) hstart hcurrent htail
        refine ⟨hall, fun t ht => (hpoints t ht).trans ?_⟩
        have hhere : start ≤ t ∧ t ≤ current ↔ start ≤ t ∧ t ≤ previous ∨ t = current := by
          constructor
          · rintro ⟨hlow, hhigh⟩
            rcases lt_or_ge t current with hbefore | hafter
            · have hstep := le_sub_of_lt ht hcurrent hbefore
              exact .inl ⟨hlow, by omega⟩
            · exact .inr (by omega)
          · rintro (⟨hlow, hhigh⟩ | rfl)
            · exact ⟨hlow, by omega⟩
            · exact ⟨by omega, le_rfl⟩
        rw [hhere, List.mem_cons, or_assoc]

theorem contiguousBlocks_spec {ts : List ℤ} {blocks : List (ℤ × ℤ)}
    (h : contiguousBlocks ts = .ok blocks) (hts : ∀ t ∈ ts, minute ∣ t) :
    (∀ b ∈ blocks, minute ∣ b.1 ∧ minute ∣ b.2 ∧ b.1 ≤ b.2) ∧
    ∀ t, minute ∣ t → ((∃ b ∈ blocks, b.1 ≤ t ∧ t ≤ b.2) ↔ t ∈ ts) := by
  cases ts with
  | nil =>
    cases h
    simp
  | cons first rest =>
    have hfirst := hts first List.mem_cons_self
    obtain ⟨hall, hpoints⟩ := blocksFrom_spec h le_rfl hfirst hfirst
      fun t ht => hts t (List.mem_cons_of_mem _ ht)
    refine ⟨hall, fun t ht => (hpoints t ht).trans ?_⟩
    rw [List.mem_cons]
    have hhere : first ≤ t ∧ t ≤ first ↔ t = first := by omega
    rw [hhere]

/-! ### Merges -/

theorem Merged.absorbed {d d' : Database} {assetId id : ℕ} {start stop : ℤ}
    (h : Merged assetId start stop id d d') (hfresh : d.syncRanges.lookup id = none) :
    ∃ lo hi, Absorbed minute start stop lo hi (d.coverage assetId) (d'.coverage assetId) := by
  obtain ⟨lo, hi, hordered, hnew, hnear, hblock, hlo, hhi⟩ := h.range
  refine ⟨lo, hi, fun p => ?_, hblock, ?_, ?_, ?_⟩
  · constructor
    · rintro ⟨j, r, hr, ha, rfl⟩
      by_cases hj : j = id
      · rw [hj, hnew] at hr
        cases hr
        exact .inl rfl
      · obtain ⟨hold, hfar⟩ := (h.others j r hj).mp hr
        exact .inr ⟨⟨j, r, hold, ha, rfl⟩, fun hnear => hfar ⟨ha, hnear⟩⟩
    · rintro (rfl | ⟨⟨j, r, hr, ha, rfl⟩, hfar⟩)
      · exact ⟨id, _, hnew, rfl, rfl⟩
      · have hj : j ≠ id := by
          rintro rfl
          rw [hfresh] at hr
          cases hr
        exact ⟨j, r, (h.others j r hj).mpr ⟨hr, fun hnear => hfar hnear.2⟩, ha, rfl⟩
  · rintro p ⟨j, r, hr, ha, rfl⟩ hp
    exact hnear j r hr ⟨ha, hp⟩
  · rcases hlo with h | ⟨j, r, hr, ⟨ha, hp⟩, h⟩
    · exact .inl h
    · exact .inr ⟨_, ⟨j, r, hr, ha, rfl⟩, hp, h⟩
  · rcases hhi with h | ⟨j, r, hr, ⟨ha, hp⟩, h⟩
    · exact .inl h
    · exact .inr ⟨_, ⟨j, r, hr, ha, rfl⟩, hp, h⟩

section
variable {ans : ℕ → (q : Question) → Answer q} {s : Alone Database Write Lock} {assetId : ℕ}

/-- The ranges of the asset are in normal form, in a database that keeps its constraints and
names its rows afresh. -/
structure NormalForm (assetId : ℕ) (s : Alone Database Write Lock) : Prop where
  tidy : s.view.Tidy
  fresh : ∀ id, s.names ≤ id → s.view.syncRanges.lookup id = none
  normal : Spaced minute (s.view.coverage assetId)

/-- The minutes that are covered. -/
def covered (assetId : ℕ) (s : Alone Database Write Lock) : Set ℤ :=
  points minute (s.view.coverage assetId)

theorem NormalForm.merged {s' : Alone Database Write Lock} {start stop : ℤ} (hs : NormalForm assetId s)
    (hblock : s.view.rawBlockIsComplete assetId start stop = true)
    (h : Merged assetId start stop s.names s.view s'.view) (hnames : s'.names = s.names + 1) :
    NormalForm assetId s' ∧
      covered assetId s' = covered assetId s ∪ {t | minute ∣ t ∧ start ≤ t ∧ t ≤ stop} := by
  obtain ⟨hstart, hstop, hle, -⟩ := rawBlockIsComplete_iff.mp hblock
  obtain ⟨lo, hi, habsorbed⟩ := h.absorbed (hs.fresh _ le_rfl)
  have ha : minute ∣ start := Int.dvd_of_emod_eq_zero hstart
  have hb : minute ∣ stop := Int.dvd_of_emod_eq_zero hstop
  refine ⟨⟨h.tidy hs.tidy hblock, fun id hid => ?_, ?_⟩, habsorbed.points_eq ha hb⟩
  · rw [hnames] at hid
    cases hr : s'.view.syncRanges.lookup id with
    | none => rfl
    | some r =>
      have hold := ((h.others id r (by omega)).mp hr).1
      rw [hs.fresh id (by omega)] at hold
      cases hold
  · exact habsorbed.spaced hs.normal minute_pos ha hb hle

theorem yields_markVerifiedRawBlocks_covered {blocks : List (ℤ × ℤ)} (hs : NormalForm assetId s)
    (hblocks : ∀ b ∈ blocks, s.view.rawBlockIsComplete assetId b.1 b.2 = true) :
    Yields ans (markVerifiedRawBlocks assetId blocks) s fun _ s' => NormalForm assetId s' ∧
      covered assetId s' = covered assetId s ∪ {t | minute ∣ t ∧ ∃ b ∈ blocks, b.1 ≤ t ∧ t ≤ b.2} := by
  let I (done : List (ℤ × ℤ)) (s' : Alone Database Write Lock) : Prop :=
    (NormalForm assetId s' ∧ covered assetId s' =
      covered assetId s ∪ {t | minute ∣ t ∧ ∃ b ∈ done, b.1 ≤ t ∧ t ≤ b.2}) ∧
    s'.view.raw = s.view.raw
  have hstart : I [] s := by
    refine ⟨⟨hs, ?_⟩, rfl⟩
    simp
  have hloop : Yields ans (markVerifiedRawBlocks assetId blocks) s fun _ s' => I ([] ++ blocks) s' := by
    refine yields_forEach [] hstart fun done block s' hblock ⟨⟨hready, hcovered⟩, hraw⟩ => ?_
    have hcomplete : s'.view.rawBlockIsComplete assetId block.1 block.2 = true := by
      have hbefore := hblocks block hblock
      unfold Database.rawBlockIsComplete Database.rawTimestamps at hbefore ⊢
      rwa [hraw]
    refine yields_view ?_
    rw [hcomplete, if_pos rfl]
    refine (yields_mergeVerifiedSyncRanges hready.tidy hcomplete).mono fun _ s'' ⟨hmerged, hnames⟩ => ?_
    obtain ⟨hready', hcovered'⟩ := hready.merged hcomplete hmerged hnames
    refine ⟨⟨hready', ?_⟩, hmerged.raw.trans hraw⟩
    rw [hcovered', hcovered]
    ext t
    simp only [Set.mem_union, Set.mem_ofPred_eq, List.mem_append, List.mem_singleton, or_and_right,
      exists_or, exists_eq_left, and_or_left, or_assoc]
  exact hloop.mono fun _ s' hs' => hs'.1

/-- The upserts of a batch and the marking of its blocks add its minutes. -/
theorem yields_fillAndMark {candles : List Candle} (writer : Writer)
    (hcandles : ∀ c ∈ candles, c.excluded.isSome ∧ c.key.assetId = assetId)
    (hordered : (candles.map (·.key.timestamp)).Pairwise (· < ·)) (hs : NormalForm assetId s) :
    Yields ans (do
      let _ ← upsertRawCandles writer candles
      let blocks ← Task.ofExcept (contiguousBlocks (candles.map (·.key.timestamp)))
      markVerifiedRawBlocks assetId blocks) s fun _ s' => NormalForm assetId s' ∧
        covered assetId s' = covered assetId s ∪ {t | t ∈ candles.map (·.key.timestamp)} := by
  have hupserts := @yields_upsertRawCandles ans s writer _ fun c hc => (hcandles c hc).1
  refine hupserts.bind fun _ s₁ hfilled => ?_
  obtain ⟨blocks, hok⟩ := contiguousBlocks_ok hordered
  rw [hok]
  have haligned : ∀ t ∈ candles.map (·.key.timestamp), minute ∣ t := by
    intro t ht
    obtain ⟨c, -, rfl⟩ := List.mem_map.mp ht
    exact Int.dvd_of_emod_eq_zero c.key.aligned
  obtain ⟨hblocks, hpoints⟩ := contiguousBlocks_spec hok haligned
  have hcoverage : s₁.view.coverage assetId = s.view.coverage assetId := by
    unfold Database.coverage
    rw [hfilled.ranges]
  have hready : NormalForm assetId s₁ := by
    refine ⟨hfilled.tidy hs.tidy, fun id hid => ?_, ?_⟩
    · rw [hfilled.ranges]
      rw [hfilled.names] at hid
      exact hs.fresh id hid
    · rw [hcoverage]
      exact hs.normal
  have hcomplete : ∀ b ∈ blocks, s₁.view.rawBlockIsComplete assetId b.1 b.2 = true := by
    intro b hb
    obtain ⟨hb₁, hb₂, hle⟩ := hblocks b hb
    refine rawBlockIsComplete_iff.mpr ⟨Int.emod_eq_zero_of_dvd hb₁, Int.emod_eq_zero_of_dvd hb₂,
      hle, fun key ha hlow hhigh => ?_⟩
    have hmem := (hpoints key.timestamp (Int.dvd_of_emod_eq_zero key.aligned)).mp
      ⟨b, hb, hlow, hhigh⟩
    obtain ⟨c, hc, htime⟩ := List.mem_map.mp hmem
    have hkey : c.key = key := by
      have hasset := (hcandles c hc).2
      cases hk : c.key
      cases key
      rw [hk] at htime hasset
      dsimp only at htime hasset ha
      subst htime hasset ha
      rfl
    exact hkey ▸ hfilled.present _ (List.mem_map_of_mem hc)
  refine (yields_markVerifiedRawBlocks_covered hready hcomplete).mono fun _ s₂ ⟨hs₂, hcovered⟩ => ?_
  refine ⟨hs₂, ?_⟩
  have hbefore : covered assetId s₁ = covered assetId s := by
    unfold covered
    rw [hcoverage]
  rw [hcovered, hbefore]
  congr 1
  ext t
  constructor
  · rintro ⟨ht, hin⟩
    exact (hpoints t ht).mp hin
  · intro ht
    exact ⟨haligned t ht, (hpoints t (haligned t ht)).mpr ht⟩

/-- A caller's transaction around `commit_raw_batch_in_transaction`. -/
def commitRawBatch (writer : Writer) (assetId : ℕ) (batch : List CandlePayload) : Task Unit :=
  transaction (commitRawBatchInTransaction writer assetId batch)

/-- A committed batch keeps the normal form, and adds its minutes. -/
theorem yields_commitRawBatch {batch : List CandlePayload} (h : Admissible assetId batch)
    (writer : Writer) (hs : NormalForm assetId s) :
    Yields ans (commitRawBatch writer assetId batch) s fun _ s' =>
      (NormalForm assetId s' ∧ s'.view = s'.db) ∧
      covered assetId s' = covered assetId s ∪ {t | t ∈ batch.map (·.timestamp)} := by
  refine Yields.transaction ?_
  suffices hbody : Yields ans (commitRawBatchInTransaction writer assetId batch) s fun _ s' =>
      NormalForm assetId s' ∧ covered assetId s' = covered assetId s ∪ {t | t ∈ batch.map (·.timestamp)} by
    exact hbody.mono fun _ s' ⟨hready, hcovered⟩ =>
      ⟨⟨⟨hready.tidy, hready.fresh, hready.normal⟩, rfl⟩, hcovered⟩
  unfold commitRawBatchInTransaction
  split
  · rename_i hempty
    obtain rfl := List.isEmpty_iff.mp hempty
    refine yields_pure ⟨hs, ?_⟩
    simp
  · refine yields_query ?_
    obtain ⟨candles, hprepare, hcandles, htimes, hordered⟩ := h.prepare (ans s.asked .now)
    rw [hprepare, ← htimes]
    exact yields_acquire (yields_fillAndMark writer hcandles hordered
      ⟨hs.tidy, hs.fresh, hs.normal⟩)

/-- The minutes determine the ranges. -/
theorem NormalForm.coverage_eq {s' : Alone Database Write Lock} (hs : NormalForm assetId s)
    (hs' : NormalForm assetId s') (h : covered assetId s = covered assetId s') :
    s.view.coverage assetId = s'.view.coverage assetId :=
  hs.normal.eq_of_points hs'.normal minute_pos h

/-- A committed batch keeps the ranges in normal form and covers exactly its minutes besides what
was covered; two batches commute, and a batch committed again changes no range. -/
theorem commitRawBatch_coverage {first second : List CandlePayload} (writer : Writer)
    (hfirst : Admissible assetId first) (hsecond : Admissible assetId second)
    (hs : NormalForm assetId s) :
    (Yields ans (commitRawBatch writer assetId first) s fun _ s' => NormalForm assetId s' ∧ s'.view = s'.db ∧
      covered assetId s' = covered assetId s ∪ {t | t ∈ first.map (·.timestamp)}) ∧
    (∃ s₁ s₂, run ans (do commitRawBatch writer assetId first; commitRawBatch writer assetId second) s = some (.ok (), s₁) ∧
      run ans (do commitRawBatch writer assetId second; commitRawBatch writer assetId first) s = some (.ok (), s₂) ∧
      s₁.db.coverage assetId = s₂.db.coverage assetId) ∧
    ∃ s₁ s₂, run ans (commitRawBatch writer assetId first) s = some (.ok (), s₁) ∧
      run ans (commitRawBatch writer assetId first) s₁ = some (.ok (), s₂) ∧
      s₂.db.coverage assetId = s₁.db.coverage assetId := by
  have hone : ∀ {batch : List CandlePayload} {s : Alone Database Write Lock},
      Admissible assetId batch → NormalForm assetId s → Yields ans (commitRawBatch writer assetId batch) s fun _ s' =>
        (NormalForm assetId s' ∧ s'.view = s'.db) ∧
        covered assetId s' = covered assetId s ∪ {t | t ∈ batch.map (·.timestamp)} :=
    fun hbatch hs => yields_commitRawBatch hbatch writer hs
  refine ⟨(hone hfirst hs).mono fun _ s' ⟨⟨hn, hview⟩, hc⟩ => ⟨hn, hview, hc⟩, ?_, ?_⟩
  · obtain ⟨_, s₁, hrun₁, ⟨hn₁, -⟩, hc₁⟩ := hone hfirst hs
    obtain ⟨_, s₁₂, hrun₁₂, ⟨hn₁₂, hview₁₂⟩, hc₁₂⟩ := hone hsecond hn₁
    obtain ⟨_, s₂, hrun₂, ⟨hn₂, -⟩, hc₂⟩ := hone hsecond hs
    obtain ⟨_, s₂₁, hrun₂₁, ⟨hn₂₁, hview₂₁⟩, hc₂₁⟩ := hone hfirst hn₂
    refine ⟨s₁₂, s₂₁, (run_ok hrun₁).trans hrun₁₂, (run_ok hrun₂).trans hrun₂₁, ?_⟩
    rw [← hview₁₂, ← hview₂₁]
    refine hn₁₂.coverage_eq hn₂₁ ?_
    rw [hc₁₂, hc₁, hc₂₁, hc₂, Set.union_right_comm]
  · obtain ⟨_, s₁, hrun₁, ⟨hn₁, hview₁⟩, hc₁⟩ := hone hfirst hs
    obtain ⟨_, s₂, hrun₂, ⟨hn₂, hview₂⟩, hc₂⟩ := hone hfirst hn₁
    refine ⟨s₁, s₂, hrun₁, hrun₂, ?_⟩
    rw [← hview₁, ← hview₂]
    refine hn₂.coverage_eq hn₁ ?_
    rw [hc₂, hc₁, Set.union_assoc, Set.union_self]

def unitPayload (timestamp : ℤ) : CandlePayload :=
  { timestamp, «open» := some 1, high := some 1, low := some 1, close := some 1, volume := some 1,
    source := some "binance_rest" }

/-- Flat payloads at increasing whole minutes. -/
theorem admissible_flat {ts : List ℤ} (haligned : ∀ t ∈ ts, t % minute = 0)
    (hordered : ts.Pairwise (· < ·)) : Admissible 1 (ts.map unitPayload) := by
  constructor
  · intro now p hp
    obtain ⟨t, ht, rfl⟩ := List.mem_map.mp hp
    have hminute : (unitPayload t).timestamp % minute = 0 := haligned t ht
    have hsource : payloadSource (some "binance_rest") = .ok "binance_rest" := by decide +kernel
    have hvalues : checkOhlcv ⟨1, 1, 1, 1, 1⟩ = .ok () := by decide +kernel
    refine ⟨⟨⟨1, t, hminute⟩, some ⟨1, 1, 1, 1, 1⟩, "binance_rest", none, some now⟩, ?_, ?_⟩
    · unfold validateCandlePayload
      rw [dif_pos hminute]
      show (payloadSource (some "binance_rest") >>= fun source =>
        (checkOhlcv ⟨1, 1, 1, 1, 1⟩ >>= fun _ => pure (some _)) >>= fun values => pure _) = _
      rw [hsource, hvalues]
      rfl
    · have hok : Ohlcv.Valid ⟨1, 1, 1, 1, 1⟩ := by decide +kernel
      unfold Candle.excluded
      dsimp only
      rw [dif_pos hok]
      rfl
  · rw [List.pairwise_map]
    exact hordered

theorem normalForm_empty : NormalForm 1 ({ db := {} } : Alone Database Write Lock) := by
  have hcoverage : (({ db := {} } : Alone Database Write Lock).view).coverage 1 = ∅ := by
    refine Set.eq_empty_iff_forall_notMem.mpr ?_
    rintro p ⟨id, r, hr, -⟩
    cases hr
  refine ⟨Database.Tidy.empty, fun _ _ => rfl, ?_⟩
  rw [hcoverage]
  exact ⟨fun _ h => absurd h (Set.notMem_empty _), fun _ h => absurd h (Set.notMem_empty _),
    fun _ h => absurd h (Set.notMem_empty _)⟩

/-- The minutes on both sides of a gap, and the minutes of the gap. -/
theorem commitRawBatch_gap : ∃ s₁ s₂,
    run (fun _ => steady 0) (do
      commitRawBatch .direct 1 ([0, 3 * minute].map unitPayload)
      commitRawBatch .direct 1 ([minute, 2 * minute].map unitPayload)) { db := {} } =
        some (.ok (), s₁) ∧
    run (fun _ => steady 0) (do
      commitRawBatch .direct 1 ([minute, 2 * minute].map unitPayload)
      commitRawBatch .direct 1 ([0, 3 * minute].map unitPayload)) { db := {} } =
        some (.ok (), s₂) ∧
    s₁.db.coverage 1 = s₂.db.coverage 1 :=
  (commitRawBatch_coverage .direct (admissible_flat (by decide) (by decide))
    (admissible_flat (by decide) (by decide)) normalForm_empty).2.1

end
end Quantive.Candles
