import Quantive.Candles.Coverage
import Quantive.ReadCommitted.Alone

/-!
# Merging of ranges

In a database whose ranges are complete and apart, a verified block always finds its place: the
ranges within a minute of it give way to one range that holds them all.
-/

namespace Quantive.Candles
open Quantive.ReadCommitted Prog

/-- What the trigger and the exclusion constraint of `sync_ranges` keep. -/
structure Database.Tidy (d : Database) : Prop where
  complete : ∀ id r, d.syncRanges.lookup id = some r →
    d.rawBlockIsComplete r.assetId r.startTimestamp r.endTimestamp = true
  apart : ∀ id id' r r', d.syncRanges.lookup id = some r → d.syncRanges.lookup id' = some r' →
    r.assetId = r'.assetId → r.startTimestamp ≤ r'.endTimestamp →
    r'.startTimestamp ≤ r.endTimestamp → id = id'

/-- The ranges that the merge of a block locks. -/
def SyncRange.Near (r : SyncRange) (assetId : ℕ) (start stop : ℤ) : Prop :=
  r.assetId = assetId ∧ r.startTimestamp ≤ stop + minute ∧ start - minute ≤ r.endTimestamp

/-- The block has taken the place of the ranges near it, under the name `id`. -/
structure Merged (assetId : ℕ) (start stop : ℤ) (id : ℕ) (d d' : Database) : Prop where
  raw : d'.raw = d.raw
  range : ∃ lo hi, ∃ h : lo ≤ hi, d'.syncRanges.lookup id = some ⟨assetId, lo, hi, h⟩ ∧
    (∀ j r, d.syncRanges.lookup j = some r → r.Near assetId start stop →
      lo ≤ r.startTimestamp ∧ r.endTimestamp ≤ hi) ∧
    (lo ≤ start ∧ stop ≤ hi) ∧
    (lo = start ∨ ∃ j r, d.syncRanges.lookup j = some r ∧ r.Near assetId start stop ∧
      r.startTimestamp = lo) ∧
    (hi = stop ∨ ∃ j r, d.syncRanges.lookup j = some r ∧ r.Near assetId start stop ∧
      r.endTimestamp = hi)
  others : ∀ j r, j ≠ id → (d'.syncRanges.lookup j = some r ↔
    d.syncRanges.lookup j = some r ∧ ¬ r.Near assetId start stop)

/-! ### Folds -/

theorem foldl_min {α : Type} (f : α → ℤ) (xs : List α) (m : ℤ) :
    xs.foldl (fun m x => min m (f x)) m ≤ m ∧
    (∀ x ∈ xs, xs.foldl (fun m x => min m (f x)) m ≤ f x) ∧
    (xs.foldl (fun m x => min m (f x)) m = m ∨
      ∃ x ∈ xs, f x = xs.foldl (fun m x => min m (f x)) m) := by
  induction xs generalizing m with
  | nil => exact ⟨le_refl _, by simp, Or.inl rfl⟩
  | cons x xs ih =>
    obtain ⟨hle, hall, hfrom⟩ := ih (min m (f x))
    rw [List.foldl_cons]
    refine ⟨hle.trans (min_le_left _ _), fun y hy => ?_, ?_⟩
    · rcases List.mem_cons.mp hy with rfl | hy
      · exact hle.trans (min_le_right _ _)
      · exact hall y hy
    · rcases hfrom with h | ⟨y, hy, h⟩
      · rcases le_total m (f x) with hm | hm
        · exact Or.inl (h.trans (min_eq_left hm))
        · exact Or.inr ⟨x, List.mem_cons_self, (h.trans (min_eq_right hm)).symm⟩
      · exact Or.inr ⟨y, List.mem_cons_of_mem _ hy, h⟩

theorem foldl_max {α : Type} (f : α → ℤ) (xs : List α) (m : ℤ) :
    m ≤ xs.foldl (fun m x => max m (f x)) m ∧
    (∀ x ∈ xs, f x ≤ xs.foldl (fun m x => max m (f x)) m) ∧
    (xs.foldl (fun m x => max m (f x)) m = m ∨
      ∃ x ∈ xs, f x = xs.foldl (fun m x => max m (f x)) m) := by
  induction xs generalizing m with
  | nil => exact ⟨le_refl _, by simp, Or.inl rfl⟩
  | cons x xs ih =>
    obtain ⟨hle, hall, hfrom⟩ := ih (max m (f x))
    rw [List.foldl_cons]
    refine ⟨(le_max_left _ _).trans hle, fun y hy => ?_, ?_⟩
    · rcases List.mem_cons.mp hy with rfl | hy
      · exact (le_max_right _ _).trans hle
      · exact hall y hy
    · rcases hfrom with h | ⟨y, hy, h⟩
      · rcases le_total (f x) m with hm | hm
        · exact Or.inl (h.trans (max_eq_left hm))
        · exact Or.inr ⟨x, List.mem_cons_self, (h.trans (max_eq_right hm)).symm⟩
      · exact Or.inr ⟨y, List.mem_cons_of_mem _ hy, h⟩

/-! ### Statements alone -/

section
variable {ans : ℕ → (q : Question) → Answer q} {s : Alone Database Write Lock}

/-- Alone, every row of the snapshot is found and locked, up to the limit. -/
theorem yields_lockRows {K ρ : Type} (lock : K → Lock) (row : Database → K → Option ρ)
    (ks : List K) (n : ℕ) {d : Database} (hview : s.view = d) (hrow : ∀ k ∈ ks, (row d k).isSome) :
    Yields ans (Task.lockRows lock row n ks) s fun rows s' => rows.map (·.1) = ks.take n ∧
      (∀ r ∈ rows, row d r.1 = some r.2) ∧ s'.view = d ∧ s'.names = s.names := by
  induction ks generalizing n s with
  | nil =>
    cases n <;> exact yields_pure ⟨rfl, by simp, hview, rfl⟩
  | cons k ks ih =>
    cases n with
    | zero => exact yields_pure ⟨rfl, by simp, hview, rfl⟩
    | succ n =>
      obtain ⟨r, hr⟩ := Option.isSome_iff_exists.mp (hrow k List.mem_cons_self)
      refine yields_acquire (yields_view ?_)
      rw [Alone.hold_view, hview, hr]
      have hrest := ih (s := s.hold (lock k)) n hview fun k hk => hrow k (List.mem_cons_of_mem _ hk)
      refine hrest.bind fun rows s' ⟨hkeys, hrows, hsame, hnames⟩ => yields_pure ⟨?_, ?_, hsame, hnames⟩
      · rw [List.map_cons, hkeys]
        rfl
      · intro x hx
        rcases List.mem_cons.mp hx with rfl | hx
        · exact hr
        · exact hrows x hx

theorem lookup_of_mem_rangesMeeting {d : Database} {assetId id : ℕ} {start stop : ℤ}
    (h : id ∈ d.rangesMeeting assetId start stop) :
    ∃ r, d.syncRanges.lookup id = some r ∧ r.assetId = assetId ∧ r.startTimestamp ≤ stop ∧
      start ≤ r.endTimestamp := by
  obtain ⟨e, he, rfl⟩ := List.mem_map.mp h
  obtain ⟨hmem, hmeets⟩ := List.mem_filter.mp he
  simp only [Bool.and_eq_true, decide_eq_true_eq] at hmeets
  exact ⟨e.2, AList.mem_lookup_iff.mpr hmem, hmeets.1.1, hmeets.1.2, hmeets.2⟩

theorem yields_lockRanges (assetId : ℕ) (start stop : ℤ) :
    Yields ans (lockRanges (s.view.rangesMeeting assetId start stop)) s fun rows s' =>
      rows.map (·.1) = s.view.rangesMeeting assetId start stop ∧
      (∀ r ∈ rows, s.view.syncRanges.lookup r.1 = some r.2) ∧ s'.view = s.view ∧
      s'.names = s.names := by
  have hrows : Yields ans _ s _ := yields_lockRows Lock.syncRange
    (fun d id => d.syncRanges.lookup id) (s.view.rangesMeeting assetId start stop)
    (s.view.rangesMeeting assetId start stop).length rfl fun id hid => ?_
  · rwa [List.take_length] at hrows
  · obtain ⟨r, hr, -⟩ := lookup_of_mem_rangesMeeting hid
    rw [hr]
    rfl

/-- The deletions of some ranges. -/
theorem yields_deleteRanges (rows : List (ℕ × SyncRange)) :
    Yields ans (forEach (fun r => emit (.deleteRange r.1)) rows : Task Unit) s fun _ s' =>
      s'.view.raw = s.view.raw ∧ s'.names = s.names ∧
      ∀ j, s'.view.syncRanges.lookup j =
        if j ∈ rows.map (·.1) then none else s.view.syncRanges.lookup j := by
  let I (done : List (ℕ × SyncRange)) (s' : Alone Database Write Lock) : Prop :=
    s'.view.raw = s.view.raw ∧ s'.names = s.names ∧ ∀ j, s'.view.syncRanges.lookup j =
      if j ∈ done.map (·.1) then none else s.view.syncRanges.lookup j
  have hstart : I [] s := ⟨rfl, rfl, fun j => by simp⟩
  refine yields_forEach (I := I) [] hstart fun done row s' _ ⟨hraw, hnames, hranges⟩ => ?_
  refine ⟨(), s'.push (.deleteRange row.1), rfl, ?_, hnames, fun j => ?_⟩
  · rw [Alone.push_view, apply_raw]
    exact hraw
  · rw [Alone.push_view, apply_syncRanges, List.map_append, List.map_singleton]
    by_cases hj : j = row.1
    · rw [hj, AList.lookup_erase, if_pos (by simp)]
    · have hmem : j ∈ done.map (·.1) ++ [row.1] ↔ j ∈ done.map (·.1) := by simp [hj]
      rw [AList.lookup_erase_ne hj, hranges]
      simp only [hmem]

/-! ### A verified block -/

/-- The block and the ranges near it leave no minute out. -/
theorem near_complete {d : Database} {assetId : ℕ} {start stop lo hi : ℤ} (hd : d.Tidy)
    (hblock : d.rawBlockIsComplete assetId start stop = true) (hlow : lo ≤ start) (hhigh : stop ≤ hi)
    (hlo : lo = start ∨ ∃ j r, d.syncRanges.lookup j = some r ∧ r.Near assetId start stop ∧
      r.startTimestamp = lo)
    (hhi : hi = stop ∨ ∃ j r, d.syncRanges.lookup j = some r ∧ r.Near assetId start stop ∧
      r.endTimestamp = hi) :
    d.rawBlockIsComplete assetId lo hi = true := by
  obtain ⟨hstart, hstop, hle, hpresent⟩ := rawBlockIsComplete_iff.mp hblock
  have hlowAligned : lo % minute = 0 := by
    rcases hlo with rfl | ⟨j, r, hr, hnear, rfl⟩
    · exact hstart
    · exact (rawBlockIsComplete_iff.mp (hd.complete j r hr)).1
  have hhighAligned : hi % minute = 0 := by
    rcases hhi with rfl | ⟨j, r, hr, hnear, rfl⟩
    · exact hstop
    · exact (rawBlockIsComplete_iff.mp (hd.complete j r hr)).2.1
  refine rawBlockIsComplete_iff.mpr ⟨hlowAligned, hhighAligned, by omega, fun key ha hfrom hto => ?_⟩
  have haligned := key.aligned
  rw [minute_eq] at *
  rcases lt_or_ge key.timestamp start with hbefore | hafter
  · -- the minute is in the range that gives the lower end
    rcases hlo with rfl | ⟨j, r, hr, ⟨hasset, -, hclose⟩, rfl⟩
    · omega
    · have hrange := (rawBlockIsComplete_iff.mp (hd.complete j r hr)).2.2.2
      refine hrange key (ha.trans hasset.symm) hfrom ?_
      rw [minute_eq] at hclose
      omega
  · rcases lt_or_ge stop key.timestamp with hlate | hin
    · rcases hhi with rfl | ⟨j, r, hr, ⟨hasset, hclose, -⟩, rfl⟩
      · omega
      · have hrange := (rawBlockIsComplete_iff.mp (hd.complete j r hr)).2.2.2
        refine hrange key (ha.trans hasset.symm) ?_ hto
        rw [minute_eq] at hclose
        omega
    · exact hpresent key ha hafter hin

/-- A range that is not near the block does not meet what the block and the ranges near it
become. -/
theorem far_apart {d : Database} {assetId : ℕ} {start stop lo hi : ℤ} (hd : d.Tidy)
    (hle : start ≤ stop)
    (hlo : lo = start ∨ ∃ j r, d.syncRanges.lookup j = some r ∧ r.Near assetId start stop ∧
      r.startTimestamp = lo)
    (hhi : hi = stop ∨ ∃ j r, d.syncRanges.lookup j = some r ∧ r.Near assetId start stop ∧
      r.endTimestamp = hi)
    {j : ℕ} {r : SyncRange} (hr : d.syncRanges.lookup j = some r) (ha : r.assetId = assetId)
    (hfar : ¬ r.Near assetId start stop) : ¬ (r.startTimestamp ≤ hi ∧ lo ≤ r.endTimestamp) := by
  rintro ⟨hlow, hhigh⟩
  have hordered := r.ordered
  have hside : stop + minute < r.startTimestamp ∨ r.endTimestamp < start - minute := by
    by_contra hboth
    simp only [not_or, not_lt] at hboth
    exact hfar ⟨ha, hboth.1, hboth.2⟩
  rw [minute_eq] at hside
  rcases hside with hlate | hearly
  · rcases hhi with rfl | ⟨k, q, hq, hnear, rfl⟩
    · omega
    · obtain ⟨hasset, hclose, hclose'⟩ := id hnear
      rw [minute_eq] at hclose hclose'
      have hmeet := hd.apart j k r q hr hq (ha.trans hasset.symm) hlow (by omega)
      subst hmeet
      rw [hr] at hq
      cases hq
      exact hfar hnear
  · rcases hlo with rfl | ⟨k, q, hq, hnear, rfl⟩
    · omega
    · obtain ⟨hasset, hclose, hclose'⟩ := id hnear
      rw [minute_eq] at hclose hclose'
      have hmeet := hd.apart j k r q hr hq (ha.trans hasset.symm) (by omega) hhigh
      subst hmeet
      rw [hr] at hq
      cases hq
      exact hfar hnear

theorem yields_mergeVerifiedSyncRanges {assetId : ℕ} {start stop : ℤ} (hd : s.view.Tidy)
    (hblock : s.view.rawBlockIsComplete assetId start stop = true) :
    Yields ans (mergeVerifiedSyncRanges assetId start stop) s fun _ s' =>
      Merged assetId start stop s.names s.view s'.view ∧ s'.names = s.names + 1 := by
  have hle := (rawBlockIsComplete_iff.mp hblock).2.2.1
  unfold mergeVerifiedSyncRanges lockAsset
  refine yields_acquire (yields_view ?_)
  rw [Alone.hold_view]
  refine (yields_lockRanges (s := s.hold (.asset assetId)) assetId (start - minute)
    (stop + minute)).bind ?_
  rintro overlaps s₁ ⟨hkeys, hrows, hview₁, hnames₁⟩
  rw [Alone.hold_view] at hkeys hrows hview₁
  have hnear : ∀ x ∈ overlaps, x.2.Near assetId start stop := by
    intro x hx
    have hmem : x.1 ∈ s.view.rangesMeeting assetId (start - minute) (stop + minute) := by
      rw [← hkeys]
      exact List.mem_map_of_mem hx
    obtain ⟨r, hr, ha, hlow, hhigh⟩ := lookup_of_mem_rangesMeeting hmem
    rw [hrows x hx] at hr
    cases hr
    exact ⟨ha, hlow, hhigh⟩
  have hfound : ∀ j r, s.view.syncRanges.lookup j = some r → r.Near assetId start stop →
      ∃ x ∈ overlaps, x = (j, r) := by
    intro j r hr ⟨ha, hlow, hhigh⟩
    have hmem := mem_rangesMeeting hr ha hlow hhigh
    rw [← hkeys] at hmem
    obtain ⟨x, hx, rfl⟩ := List.mem_map.mp hmem
    have hsame := hrows x hx
    rw [hr] at hsame
    cases hsame
    exact ⟨x, hx, rfl⟩
  obtain ⟨hlow, hlows, hlo⟩ := foldl_min (fun x : ℕ × SyncRange => x.2.startTimestamp) overlaps start
  obtain ⟨hhigh, hhighs, hhi⟩ := foldl_max (fun x : ℕ × SyncRange => x.2.endTimestamp) overlaps stop
  generalize hmin : overlaps.foldl (fun m x => min m x.2.startTimestamp) start = lo at *
  generalize hmax : overlaps.foldl (fun m x => max m x.2.endTimestamp) stop = hi at *
  have hlo : lo = start ∨ ∃ j r, s.view.syncRanges.lookup j = some r ∧
      r.Near assetId start stop ∧ r.startTimestamp = lo := by
    rcases hlo with h | ⟨x, hx, h⟩
    · exact Or.inl h
    · exact Or.inr ⟨x.1, x.2, hrows x hx, hnear x hx, h⟩
  have hhi : hi = stop ∨ ∃ j r, s.view.syncRanges.lookup j = some r ∧
      r.Near assetId start stop ∧ r.endTimestamp = hi := by
    rcases hhi with h | ⟨x, hx, h⟩
    · exact Or.inl h
    · exact Or.inr ⟨x.1, x.2, hrows x hx, hnear x hx, h⟩
  have hordered : lo ≤ hi := by omega
  have hcomplete := near_complete hd hblock hlow hhigh hlo hhi
  refine (yields_deleteRanges overlaps).bind fun _ s₂ ⟨hraw₂, hnames₂, hranges₂⟩ => ?_
  rw [hview₁] at hraw₂ hranges₂
  have hname : s₂.names = s.names := hnames₂.trans hnames₁
  have hleft : ∀ j r, s₂.view.syncRanges.lookup j = some r ↔
      s.view.syncRanges.lookup j = some r ∧ ¬ r.Near assetId start stop := by
    intro j r
    rw [hranges₂]
    constructor
    · intro h
      by_cases hj : j ∈ overlaps.map (·.1)
      · rw [if_pos hj] at h
        cases h
      · rw [if_neg hj] at h
        refine ⟨h, fun hr => hj ?_⟩
        obtain ⟨x, hx, rfl⟩ := hfound j r h hr
        exact List.mem_map_of_mem hx
    · rintro ⟨h, hfar⟩
      rw [if_neg, h]
      intro hj
      obtain ⟨x, hx, rfl⟩ := List.mem_map.mp hj
      have hsame := hrows x hx
      rw [h] at hsame
      cases hsame
      exact hfar (hnear x hx)
  unfold insertSyncRange
  refine yields_draw (yields_acquire (yields_view ?_))
  have hthere : ((s₂.drawn.hold (.syncAdvisory assetId)).view.rawBlockIsComplete assetId lo hi) =
      true := by
    have hpresent := rawBlockIsComplete_iff.mp hcomplete
    refine rawBlockIsComplete_iff.mpr ⟨hpresent.1, hpresent.2.1, hpresent.2.2.1, fun key => ?_⟩
    rw [Alone.hold_view, Alone.drawn_view, hraw₂]
    exact hpresent.2.2.2 key
  rw [hthere, dif_pos hordered]
  refine yields_view ?_
  have hnone : (s₂.drawn.hold (.syncAdvisory assetId)).view.rangesMeeting assetId lo hi = [] := by
    refine List.eq_nil_iff_forall_not_mem.mpr fun j hj => ?_
    obtain ⟨r, hr, ha, hlow', hhigh'⟩ := lookup_of_mem_rangesMeeting hj
    obtain ⟨hold, hfar⟩ := (hleft j r).mp hr
    exact far_apart hd hle hlo hhi hold ha hfar ⟨hlow', hhigh'⟩
  rw [hnone]
  refine ⟨(), _, rfl, ⟨?_, ⟨lo, hi, hordered, ?_, ?_, ⟨hlow, hhigh⟩, hlo, hhi⟩, fun j r hj => ?_⟩,
    congrArg (· + 1) hname⟩
  · rw [Alone.push_view, apply_raw]
    exact hraw₂
  · rw [Alone.push_view, apply_syncRanges, ← hname]
    exact AList.lookup_insert _
  · intro j r hr hn
    obtain ⟨x, hx, rfl⟩ := hfound j r hr hn
    exact ⟨hlows _ hx, hhighs _ hx⟩
  · rw [Alone.push_view, apply_syncRanges]
    have hne : j ≠ s₂.names := by rwa [hname]
    rw [← hleft j r]
    show (AList.insert _ _ _).lookup j = _ ↔ _
    rw [AList.lookup_insert_ne hne]
    rfl

/-! ### Tidy databases stay tidy -/

theorem Database.Tidy.empty : ({} : Database).Tidy := by
  constructor
  · intro id r hr
    cases hr
  · intro id id' r r' hr
    cases hr

theorem Database.Tidy.grow {d d' : Database} (hd : d.Tidy) (hranges : d'.syncRanges = d.syncRanges)
    (hraw : ∀ key, (d.raw.lookup key).isSome → (d'.raw.lookup key).isSome) : d'.Tidy := by
  constructor
  · intro id r hr
    rw [hranges] at hr
    obtain ⟨hstart, hstop, hle, hall⟩ := rawBlockIsComplete_iff.mp (hd.complete id r hr)
    refine rawBlockIsComplete_iff.mpr ⟨hstart, hstop, hle, fun key ha hlow hhigh => ?_⟩
    exact hraw key (hall key ha hlow hhigh)
  · rw [hranges]
    exact hd.apart

theorem Merged.tidy {d d' : Database} {assetId id : ℕ} {start stop : ℤ}
    (h : Merged assetId start stop id d d') (hd : d.Tidy)
    (hblock : d.rawBlockIsComplete assetId start stop = true) : d'.Tidy := by
  obtain ⟨lo, hi, hordered, hnew, -, ⟨hlow, hhigh⟩, hlo, hhi⟩ := h.range
  have hle := (rawBlockIsComplete_iff.mp hblock).2.2.1
  have hsame : ∀ a first last, d'.rawBlockIsComplete a first last = d.rawBlockIsComplete a first last := by
    intro a first last
    unfold Database.rawBlockIsComplete Database.rawTimestamps
    rw [h.raw]
  have hfar : ∀ j r, j ≠ id → d'.syncRanges.lookup j = some r → r.assetId = assetId →
      ¬ (r.startTimestamp ≤ hi ∧ lo ≤ r.endTimestamp) := by
    intro j r hj hr ha
    obtain ⟨hold, hnot⟩ := (h.others j r hj).mp hr
    exact far_apart hd hle hlo hhi hold ha hnot
  constructor
  · intro j r hr
    rw [hsame]
    by_cases hj : j = id
    · rw [hj, hnew] at hr
      cases hr
      exact near_complete hd hblock hlow hhigh hlo hhi
    · exact hd.complete j r ((h.others j r hj).mp hr).1
  · intro j k r q hr hq ha hrq hqr
    by_cases hj : j = id
    · by_cases hk : k = id
      · exact hj.trans hk.symm
      · rw [hj, hnew] at hr
        cases hr
        exact absurd ⟨hqr, hrq⟩ (hfar k q hk hq ha.symm)
    · by_cases hk : k = id
      · rw [hk, hnew] at hq
        cases hq
        exact absurd ⟨hrq, hqr⟩ (hfar j r hj hr ha)
      · exact hd.apart j k r q ((h.others j r hj).mp hr).1 ((h.others k q hk).mp hq).1 ha hrq hqr

theorem yields_markVerifiedRawBlocks (assetId : ℕ) (blocks : List (ℤ × ℤ)) (hd : s.view.Tidy) :
    Yields ans (markVerifiedRawBlocks assetId blocks) s fun _ s' => s'.view.Tidy := by
  refine yields_forEach (I := fun _ (s' : Alone Database Write Lock) => s'.view.Tidy) [] hd ?_
  intro done block s' _ hd'
  refine yields_view ?_
  cases hblock : s'.view.rawBlockIsComplete assetId block.1 block.2 with
  | false => exact yields_pure hd'
  | true =>
    refine (yields_mergeVerifiedSyncRanges hd' hblock).mono fun _ s'' ⟨hmerged, _⟩ => ?_
    exact hmerged.tidy hd' hblock

end
end Quantive.Candles
