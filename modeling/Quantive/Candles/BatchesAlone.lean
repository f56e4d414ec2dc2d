import Mathlib.Tactic.Linarith
import Quantive.Candles.Promotion
import Quantive.Candles.RangeMerging

/-!
# Batches alone

A batch of candles that the checks and the constraints let through commits in a tidy database,
whichever of its candles are historical.
-/

namespace Quantive.Candles
open Quantive.ReadCommitted Prog

section
variable {ans : ℕ → (q : Question) → Answer q} {s : Alone Database Write Lock}

/-- What upserts of `keys` leave: the ranges, and at least the rows that were there. -/
structure Filled (keys : List CandleKey) (s s' : Alone Database Write Lock) : Prop where
  ranges : s'.view.syncRanges = s.view.syncRanges
  names : s'.names = s.names
  kept : ∀ key, (s.view.raw.lookup key).isSome → (s'.view.raw.lookup key).isSome
  present : ∀ key ∈ keys, (s'.view.raw.lookup key).isSome

theorem Filled.refl (s : Alone Database Write Lock) : Filled [] s s :=
  ⟨rfl, rfl, fun _ h => h, fun _ hkey => absurd hkey List.not_mem_nil⟩

theorem Filled.trans {keys more : List CandleKey} {s₁ s₂ s₃ : Alone Database Write Lock}
    (h : Filled keys s₁ s₂) (h' : Filled more s₂ s₃) : Filled (keys ++ more) s₁ s₃ := by
  refine ⟨h'.ranges.trans h.ranges, h'.names.trans h.names, fun key hkey => h'.kept key (h.kept key hkey),
    fun key hkey => ?_⟩
  rcases List.mem_append.mp hkey with hkey | hkey
  · exact h'.kept key (h.present key hkey)
  · exact h'.present key hkey

theorem Filled.tidy {keys : List CandleKey} {s s' : Alone Database Write Lock}
    (h : Filled keys s s') (hd : s.view.Tidy) : s'.view.Tidy := hd.grow h.ranges h.kept

theorem yields_appendRevision (key : CandleKey) (row : StoredCandle) :
    Yields ans (appendRevision key row) s fun _ s' => Filled [] s s' := by
  refine yields_view ?_
  by_cases h : (s.view.revisions.lookup (key, row.dataRevision)).isNone = true
  · rw [if_pos h]
    have hpush : Filled [] s (s.push (.putRevision key row)) := by
      refine ⟨?_, rfl, fun key hkey => ?_, fun _ hkey => absurd hkey List.not_mem_nil⟩
      · rw [Alone.push_view]
        rfl
      · rw [Alone.push_view]
        exact hkey
    exact ⟨(), _, rfl, hpush⟩
  · rw [if_neg h]
    exact yields_pure (Filled.refl s)

/-- An upsert leaves a row, whether it wins or not. -/
theorem yields_upsertRawCandle (writer : Writer) {c : Candle} (hc : c.excluded.isSome) :
    Yields ans (upsertRawCandle writer c) s fun _ s' => Filled [c.key] s s' := by
  obtain ⟨new, hnew⟩ := Option.isSome_iff_exists.mp hc
  rw [upsertRawCandle_eq writer hnew]
  refine yields_acquire (yields_view ?_)
  rw [Alone.hold_view]
  cases hacc : s.view.accepted c.key new with
  | none =>
    refine yields_pure ⟨rfl, rfl, fun _ h => h, fun key hkey => ?_⟩
    obtain rfl := List.mem_singleton.mp hkey
    rw [Alone.hold_view]
    cases hold : s.view.raw.lookup c.key with
    | none =>
      unfold Database.accepted at hacc
      rw [hold] at hacc
      cases hacc
    | some old => rfl
  | some row =>
    simp only [Option.elim, Database.enforce_accepted hacc, Bool.false_eq_true, if_false]
    have hput : Filled [c.key] s ((s.hold (.rawCandle c.key)).push (.putRaw writer c.key row)) := by
      have hthere : (((s.hold (.rawCandle c.key)).push (.putRaw writer c.key row)).view.raw.lookup
          c.key).isSome := by
        rw [Alone.push_view, apply_raw, AList.lookup_insert]
        rfl
      refine ⟨?_, rfl, fun key hkey => ?_, fun key hkey => ?_⟩
      · rw [Alone.push_view]
        rfl
      · by_cases hk : key = c.key
        · rw [hk]
          exact hthere
        · rw [Alone.push_view, apply_raw, AList.lookup_insert_ne hk]
          exact hkey
      · obtain rfl := List.mem_singleton.mp hkey
        exact hthere
    refine yields_emit ((yields_appendRevision c.key row).bind fun _ s' hs' => yields_pure ?_)
    exact hput.trans hs'

theorem yields_upsertRawCandles (writer : Writer) {candles : List Candle}
    (hall : ∀ c ∈ candles, c.excluded.isSome) : Yields ans (upsertRawCandles writer candles) s
      fun _ s' => Filled (candles.map (·.key)) s s' := by
  have hupserts : Yields ans (collect (upsertRawCandle writer) candles) s
      fun _ s' => Filled (candles.map (·.key)) s s' := by
    refine yields_collect (I := fun (done : List Candle) s' => Filled (done.map (·.key)) s s') []
      (Filled.refl s) fun done c s' hc hs' => ?_
    refine (yields_upsertRawCandle writer (hall c hc)).mono fun _ s'' hs'' => ?_
    rw [List.map_append]
    exact hs'.trans hs''
  refine hupserts.bind fun changed s' hs' => ?_
  have hrevisions : Yields ans (forEach (fun r => appendRevision r.1 r.2) changed) s'
      fun _ s'' => Filled [] s' s'' :=
    yields_forEach (I := fun _ (s'' : Alone Database Write Lock) => Filled [] s' s'') []
      (Filled.refl s') fun _ r s₁ _ hs₁ =>
        (yields_appendRevision r.1 r.2).mono fun _ s₂ hs₂ => hs₁.trans hs₂
  refine hrevisions.bind fun _ s'' hs'' => yields_pure ?_
  have hboth := hs'.trans hs''
  rwa [List.append_nil] at hboth

theorem yields_upsertStagedCandle {c : Candle} (hc : c.excluded.isSome) (hd : s.view.Tidy) :
    Yields ans (upsertStagedCandle c) s fun _ s' => s'.view.Tidy := by
  obtain ⟨new, hnew⟩ := Option.isSome_iff_exists.mp hc
  have hput : ∀ row, Yields ans (emit (.putStaged c.key row) : Task Unit)
      (s.hold (.stagedCandle c.key)) fun _ s' => s'.view.Tidy := by
    intro row
    have hpush : ((s.hold (.stagedCandle c.key)).push (.putStaged c.key row)).view.Tidy := by
      rw [Alone.push_view]
      exact hd.grow rfl fun _ h => h
    exact ⟨(), _, rfl, hpush⟩
  unfold upsertStagedCandle
  rw [hnew]
  refine yields_acquire (yields_view ?_)
  split
  · exact hput new
  · split
    · exact yields_pure hd
    · exact hput _

theorem blocksFrom_ok {start previous : ℤ} {rest : List ℤ}
    (h : (previous :: rest).Pairwise (· < ·)) : ∃ blocks, blocksFrom start previous rest = .ok blocks := by
  induction rest generalizing start previous with
  | nil => exact ⟨_, rfl⟩
  | cons current rest ih =>
    obtain ⟨hfirst, hrest⟩ := List.pairwise_cons.mp h
    have hlt : previous < current := hfirst current List.mem_cons_self
    unfold blocksFrom
    rw [if_neg (not_le.mpr hlt)]
    by_cases hgap : current - previous ≠ minute
    · rw [if_pos hgap]
      obtain ⟨blocks, hblocks⟩ : ∃ blocks, blocksFrom current current rest = .ok blocks := ih hrest
      rw [hblocks]
      exact ⟨_, rfl⟩
    · rw [if_neg hgap]
      exact ih hrest

theorem contiguousBlocks_ok {ts : List ℤ} (h : ts.Pairwise (· < ·)) :
    ∃ blocks, contiguousBlocks ts = .ok blocks := by
  cases ts with
  | nil => exact ⟨[], rfl⟩
  | cons t rest => exact blocksFrom_ok h

theorem checkOhlcv_ok {v : Ohlcv} (h : v.Valid) : checkOhlcv v = .ok () := by
  obtain ⟨ho, hh, hl, hc, hv, hlh, hlo, hoh, hlc, hch⟩ := h
  have heps : (0 : ℚ) < epsilon := by
    unfold epsilon
    norm_num
  have hpositive : ¬ (v.open ≤ 0 ∨ v.high ≤ 0 ∨ v.low ≤ 0 ∨ v.close ≤ 0) := by
    simp only [not_or, not_le]
    exact ⟨ho, hh, hl, hc⟩
  have hhigh : ¬ v.high < v.low - epsilon := by linarith
  have hopen : ¬ ¬ (v.low - epsilon ≤ v.open ∧ v.open ≤ v.high + epsilon) :=
    not_not.mpr ⟨by linarith, by linarith⟩
  have hclose : ¬ ¬ (v.low - epsilon ≤ v.close ∧ v.close ≤ v.high + epsilon) :=
    not_not.mpr ⟨by linarith, by linarith⟩
  simp only [checkOhlcv, hpositive, not_lt.mpr hv, hhigh, hopen, hclose, if_false]
  rfl

/-- Payloads that the checks and the constraints let through, in strictly increasing order. -/
structure Admissible (assetId : ℕ) (batch : List CandlePayload) : Prop where
  valid : ∀ now, ∀ p ∈ batch, ∃ c, validateCandlePayload assetId now p = .ok c ∧ c.excluded.isSome
  ordered : batch.Pairwise fun p q => p.timestamp < q.timestamp

theorem mapM_total {α β : Type} {f : α → Except Failure β} {R : β → Prop} {xs : List α}
    (h : ∀ x ∈ xs, ∃ y, f x = .ok y ∧ R y) : ∃ ys, xs.mapM f = .ok ys ∧
      List.Forall₂ (fun x y => f x = .ok y) xs ys ∧ ∀ y ∈ ys, R y := by
  induction xs with
  | nil => exact ⟨[], rfl, .nil, by simp⟩
  | cons x xs ih =>
    obtain ⟨y, hy, hR⟩ := h x List.mem_cons_self
    obtain ⟨ys, hys, hall, hRs⟩ := ih fun z hz => h z (List.mem_cons_of_mem _ hz)
    refine ⟨y :: ys, ?_, .cons hy hall, fun z hz => ?_⟩
    · rw [List.mapM_cons, hy, hys]
      rfl
    · rcases List.mem_cons.mp hz with rfl | hz
      · exact hR
      · exact hRs z hz

theorem Admissible.prepare {assetId : ℕ} {batch : List CandlePayload} (h : Admissible assetId batch)
    (now : ℤ) : ∃ candles, prepareBatch assetId now batch = .ok candles ∧
      (∀ c ∈ candles, c.excluded.isSome ∧ c.key.assetId = assetId) ∧
      candles.map (·.key.timestamp) = batch.map (·.timestamp) ∧
      (candles.map (·.key.timestamp)).Pairwise (· < ·) := by
  have hvalid : ∀ p ∈ batch, ∃ c, validateCandlePayload assetId now p = .ok c ∧
      c.excluded.isSome ∧ c.key.assetId = assetId := by
    intro p hp
    obtain ⟨c, hc, hsome⟩ := h.valid now p hp
    exact ⟨c, hc, hsome, (validateCandlePayload_ok hc).1⟩
  obtain ⟨candles, hmap, hall, hsome⟩ := mapM_total hvalid
  have htimes : candles.map (·.key.timestamp) = batch.map (·.timestamp) := by
    clear hmap hsome hvalid h
    induction hall with
    | nil => rfl
    | cons hok _ ih => rw [List.map_cons, List.map_cons, ih, (validateCandlePayload_ok hok).2.1]
  have hordered : (candles.map (·.key.timestamp)).Pairwise (· < ·) := by
    rw [htimes, List.pairwise_map]
    exact h.ordered
  refine ⟨candles, ?_, hsome, htimes, hordered⟩
  obtain ⟨blocks, hblocks⟩ := contiguousBlocks_ok hordered
  unfold prepareBatch
  rw [hmap]
  show (contiguousBlocks (candles.map (·.key.timestamp)) >>= fun _ => pure candles) = _
  rw [hblocks]
  rfl

theorem yields_commitBatchInTransaction {assetId : ℕ} {batch : List CandlePayload}
    (h : Admissible assetId batch) (writer : Writer) (hd : s.view.Tidy) :
    Yields ans (commitBatchInTransaction writer assetId batch) s fun _ s' => s'.view.Tidy := by
  unfold commitBatchInTransaction
  split
  · exact yields_pure hd
  · refine yields_query ?_
    obtain ⟨candles, hprepare, hcandles, -, hordered⟩ := h.prepare (ans s.asked .now)
    have hsome : ∀ c ∈ candles, c.excluded.isSome := fun c hc => (hcandles c hc).1
    rw [hprepare]
    refine yields_acquire (yields_query ?_)
    obtain ⟨now', hnow⟩ : ∃ t : ℤ, t = ans (s.answered.hold (.asset assetId)).asked .now := ⟨_, rfl⟩
    rw [← hnow]
    have hstaged : ∀ s' : Alone Database Write Lock, s'.view.Tidy → Yields ans
        (forEach upsertStagedCandle (candles.filter fun c => c.key.timestamp < now' - 7 * day)) s'
        fun _ s'' => s''.view.Tidy := by
      intro s' hs'
      refine yields_forEach (I := fun _ (s'' : Alone Database Write Lock) => s''.view.Tidy)
        [] hs' fun _ c s'' hc hs'' => ?_
      exact yields_upsertStagedCandle (hsome c (List.mem_of_mem_filter hc)) hs''
    have hasked : (s.answered.hold (.asset assetId)).answered.view.Tidy := hd
    dsimp only
    split
    · have hlive : ∀ c ∈ candles.filter (fun c => now' - 7 * day ≤ c.key.timestamp),
          c.excluded.isSome := fun c hc => hsome c (List.mem_of_mem_filter hc)
      have hblocks : ((candles.filter fun c => now' - 7 * day ≤ c.key.timestamp).map
          (·.key.timestamp)).Pairwise (· < ·) :=
        hordered.sublist (List.filter_sublist.map _)
      obtain ⟨blocks, hok⟩ := contiguousBlocks_ok hblocks
      refine (yields_upsertRawCandles writer hlive).bind fun _ s₁ hs₁ => ?_
      rw [hok]
      exact (yields_markVerifiedRawBlocks assetId blocks (hs₁.tidy hasked)).bind
        fun _ s₂ hs₂ => hstaged s₂ hs₂
    · exact hstaged _ hasked

/-- The connection never fails. -/
def Calm (ans : ℕ → (q : Question) → Answer q) : Prop := ∀ n, ans n .fault = (none : Option Failure)

/-- The connection works, no lease is lost, and the clock stands. -/
def steady (now : ℤ) : (q : Question) → Answer q
  | .now => now
  | .fault => (none : Option Failure)
  | .ownershipLost => false
  | .klines _ => KlinesResponse.notList

theorem calm_steady (now : ℤ) : Calm fun _ => steady now := fun _ => rfl

/-- The rule of a transaction in a session of its own. -/
theorem yields_inTransaction_of {α : Type} (hans : Calm ans) {body : Task α}
    {K : α → Alone Database Write Lock → Prop}
    (h : Yields ans body s.answered fun a s' => K a s'.committed.answered) :
    Yields ans (Task.inTransaction body) s K := by
  have hconnection : ∀ s' : Alone Database Write Lock,
      Yields ans Task.connection s' fun _ s'' => s'' = s'.answered := by
    intro s'
    refine yields_query ?_
    rw [hans]
    exact yields_pure rfl
  unfold Task.inTransaction
  refine (hconnection s).bind fun _ s₁ hs₁ => ?_
  subst hs₁
  have hbody : Yields ans (transaction body) s.answered fun a s' => K a s'.answered :=
    Yields.transaction h
  refine hbody.bind fun a s₂ hs₂ => ?_
  refine (hconnection s₂).bind fun _ s₃ hs₃ => ?_
  subst hs₃
  exact yields_pure hs₂

theorem yields_inTransaction {α : Type} (hans : Calm ans) {body : Task α} {B : α → Database → Prop}
    (h : Yields ans body s.answered fun a s' => B a s'.view) :
    Yields ans (Task.inTransaction body) s fun a s' => B a s'.db ∧ s'.view = s'.db :=
  yields_inTransaction_of hans (h.mono fun _ _ hs' => ⟨hs', rfl⟩)

theorem yields_commitBatch (hans : Calm ans) {assetId : ℕ} {batch : List CandlePayload}
    (h : Admissible assetId batch) (hd : s.db.Tidy) (hs : s.view = s.db) :
    Yields ans (commitBatch assetId batch (pure ())) s fun _ s' => s'.db.Tidy ∧ s'.view = s'.db := by
  unfold commitBatch
  split
  · exact yields_pure ⟨hd, hs⟩
  · refine yields_inTransaction hans ?_
    have htidy : s.answered.view.Tidy := by
      rw [Alone.answered_view, hs]
      exact hd
    exact yields_commitBatchInTransaction h .direct htidy

end
end Quantive.Candles
