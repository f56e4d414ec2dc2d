import Mathlib.Data.Finset.Card
import Mathlib.Algebra.Order.Group.Int
import Quantive.Candles.HistoricalMerge

/-!
# Coverage

Every whole minute of every range of `sync_ranges` has its raw row, in every reachable state.
A count, a minimum and a maximum prove a block complete, and the advisory lock of an asset orders
the insertion of a range with the deletion of its rows.
-/

namespace Quantive.Candles
open Quantive.ReadCommitted Prog

/-! ### A complete block -/

/-- Every whole minute of `[start, stop]` has a raw row. -/
def Database.Present (d : Database) (assetId : ℕ) (start stop : ℤ) : Prop :=
  ∀ key : CandleKey, key.assetId = assetId → start ≤ key.timestamp → key.timestamp ≤ stop →
    (d.raw.lookup key).isSome

/-- The minutes of a block from an aligned start. -/
def blockMinutes (start stop : ℤ) : Finset ℤ :=
  (Finset.range ((stop - start) / minute + 1).toNat).image fun (i : ℕ) => start + minute * i

section
variable {start stop : ℤ}

theorem mem_blockMinutes (halign : start % minute = 0) {t : ℤ} :
    t ∈ blockMinutes start stop ↔ start ≤ t ∧ t ≤ stop ∧ t % minute = 0 := by
  rw [minute_eq] at *
  simp only [blockMinutes, Finset.mem_image, Finset.mem_range, minute_eq]
  constructor
  · rintro ⟨i, hi, rfl⟩
    refine ⟨?_, ?_, ?_⟩ <;> omega
  · rintro ⟨hlow, hhigh, hmod⟩
    refine ⟨((t - start) / 60000000).toNat, ?_, ?_⟩ <;> omega

theorem card_blockMinutes : (blockMinutes start stop).card = ((stop - start) / minute + 1).toNat := by
  unfold blockMinutes
  rw [Finset.card_image_of_injective, Finset.card_range]
  intro i j h
  simp only [minute_eq] at h
  omega

variable {d : Database} {assetId : ℕ}

theorem mem_rawTimestamps {t : ℤ} : t ∈ d.rawTimestamps assetId start stop ↔
    start ≤ t ∧ t ≤ stop ∧ ∃ h : t % minute = 0, (d.raw.lookup ⟨assetId, t, h⟩).isSome := by
  simp only [Database.rawTimestamps, List.mem_map, List.mem_filter, Bool.and_eq_true,
    decide_eq_true_eq]
  constructor
  · rintro ⟨k, ⟨hk, ⟨rfl, hlow⟩, hhigh⟩, rfl⟩
    exact ⟨hlow, hhigh, k.aligned, AList.lookup_isSome.mpr hk⟩
  · rintro ⟨hlow, hhigh, h, hk⟩
    exact ⟨⟨assetId, t, h⟩, ⟨AList.lookup_isSome.mp hk, ⟨rfl, hlow⟩, hhigh⟩, rfl⟩

theorem rawTimestamps_nodup (d : Database) (assetId : ℕ) (start stop : ℤ) :
    (d.rawTimestamps assetId start stop).Nodup := by
  unfold Database.rawTimestamps
  refine (d.raw.keys_nodup.filter _).map_on fun k hk l hl h => ?_
  have hka := (List.mem_filter.mp hk).2
  have hla := (List.mem_filter.mp hl).2
  simp only [Bool.and_eq_true, decide_eq_true_eq] at hka hla
  obtain ⟨a, t, ht⟩ := k
  obtain ⟨b, u, hu⟩ := l
  obtain rfl : t = u := h
  obtain rfl : a = b := hka.1.1.trans hla.1.1.symm
  rfl

/-- The count, the minimum and the maximum say that no minute is missing. -/
theorem rawBlockIsComplete_iff : d.rawBlockIsComplete assetId start stop = true ↔
    start % minute = 0 ∧ stop % minute = 0 ∧ start ≤ stop ∧ d.Present assetId start stop := by
  have hcard := List.toFinset_card_of_nodup
    (rawTimestamps_nodup d assetId start stop)
  unfold Database.rawBlockIsComplete
  simp only [Bool.and_eq_true, decide_eq_true_eq]
  constructor
  · rintro ⟨⟨hcount, hmin⟩, hmax⟩
    obtain ⟨-, hle, hstart, -⟩ := mem_rawTimestamps.mp (List.min?_mem hmin)
    obtain ⟨-, -, hstop, -⟩ := mem_rawTimestamps.mp (List.max?_mem hmax)
    refine ⟨hstart, hstop, hle, fun ⟨a, t, h⟩ ha hlow hhigh => ?_⟩
    obtain rfl : assetId = a := ha.symm
    have hsub : (d.rawTimestamps assetId start stop).toFinset ⊆ blockMinutes start stop := by
      intro t ht
      obtain ⟨hlow, hhigh, h, -⟩ := mem_rawTimestamps.mp (List.mem_toFinset.mp ht)
      exact (mem_blockMinutes hstart).mpr ⟨hlow, hhigh, h⟩
    have hall : (d.rawTimestamps assetId start stop).toFinset = blockMinutes start stop :=
      Finset.eq_of_subset_of_card_le hsub (by rw [hcard, card_blockMinutes]; omega)
    have ht : t ∈ (d.rawTimestamps assetId start stop).toFinset :=
      hall ▸ (mem_blockMinutes hstart).mpr ⟨hlow, hhigh, h⟩
    exact (mem_rawTimestamps.mp (List.mem_toFinset.mp ht)).2.2.2
  · rintro ⟨hstart, hstop, hle, hall⟩
    have heq : (d.rawTimestamps assetId start stop).toFinset = blockMinutes start stop := by
      ext t
      rw [List.mem_toFinset, mem_rawTimestamps, mem_blockMinutes hstart]
      exact ⟨fun ⟨hlow, hhigh, h, _⟩ => ⟨hlow, hhigh, h⟩,
        fun ⟨hlow, hhigh, h⟩ => ⟨hlow, hhigh, h, hall ⟨assetId, t, h⟩ rfl hlow hhigh⟩⟩
    rw [heq, card_blockMinutes] at hcard
    have hdiv : 0 ≤ (stop - start) / minute := Int.ediv_nonneg (by omega) (by decide)
    refine ⟨⟨by omega, ?_⟩, ?_⟩
    · refine List.min?_eq_some_iff.mpr ⟨?_, fun t ht => (mem_rawTimestamps.mp ht).1⟩
      exact mem_rawTimestamps.mpr ⟨le_refl _, hle, hstart, hall ⟨assetId, start, hstart⟩ rfl (le_refl _) hle⟩
    · refine List.max?_eq_some_iff.mpr ⟨?_, fun t ht => (mem_rawTimestamps.mp ht).2.1⟩
      exact mem_rawTimestamps.mpr ⟨hle, le_refl _, hstop, hall ⟨assetId, stop, hstop⟩ rfl hle (le_refl _)⟩

end

/-! ### What the log of a session does to a row -/

theorem apply_raw (w : Write) (d : Database) : (Store.apply w d).raw = match w with
    | .putRaw _ key row => d.raw.insert key row
    | .deleteRaw key => d.raw.erase key
    | _ => d.raw := by
  cases w <;> rfl

theorem apply_syncRanges (w : Write) (d : Database) : (Store.apply w d).syncRanges = match w with
    | .insertRange id range => d.syncRanges.insert id range
    | .deleteRange id => d.syncRanges.erase id
    | _ => d.syncRanges := by
  cases w <;> rfl

theorem view_append (log : List Write) (w : Write) (d : Database) :
    (log ++ [w]).foldl (fun d w => Store.apply w d) d =
      Store.apply w (log.foldl (fun d w => Store.apply w d) d) := by
  rw [List.foldl_append]
  rfl

/-- A log leaves the row of a key to the database or fixes it; a row it removes is a deletion of
it. -/
theorem view_raw (c : Ctx Write Lock) (key : CandleKey) :
    (∀ d, (c.view d).raw.lookup key = d.raw.lookup key) ∨
      ∃ v, (∀ d, (c.view d).raw.lookup key = v) ∧ (v = none → .deleteRaw key ∈ c.log) := by
  obtain ⟨held, owned, log⟩ := c
  simp only [Ctx.view]
  induction log using List.reverseRecOn with
  | nil => exact Or.inl fun d => rfl
  | append_singleton log w ih =>
    simp only [view_append, apply_raw]
    have hrest : (∀ d, (log.foldl (fun d w => Store.apply w d) d).raw.lookup key =
        d.raw.lookup key) ∨ ∃ v, (∀ d, (log.foldl (fun d w => Store.apply w d) d).raw.lookup key =
          v) ∧ (v = none → .deleteRaw key ∈ log ++ [w]) := by
      rcases ih with h | ⟨v, hv, hdel⟩
      · exact Or.inl h
      · exact Or.inr ⟨v, hv, fun h => List.mem_append_left _ (hdel h)⟩
    cases w with
    | putRaw writer other row =>
      by_cases hk : key = other
      · subst hk
        exact Or.inr ⟨some row, fun d => AList.lookup_insert _, fun h => by cases h⟩
      · simpa only [AList.lookup_insert_ne hk] using hrest
    | deleteRaw other =>
      by_cases hk : key = other
      · subst hk
        exact Or.inr ⟨none, fun d => AList.lookup_erase _ _, fun _ => by simp⟩
      · simpa only [AList.lookup_erase_ne hk] using hrest
    | _ => exact hrest

/-- The same for a range; a range that a log fixes was inserted by it. -/
theorem view_syncRanges (c : Ctx Write Lock) (id : ℕ) :
    (∀ d, (c.view d).syncRanges.lookup id = d.syncRanges.lookup id) ∨
      ∃ v, (∀ d, (c.view d).syncRanges.lookup id = v) ∧
        ∀ r, v = some r → .insertRange id r ∈ c.log := by
  obtain ⟨held, owned, log⟩ := c
  simp only [Ctx.view]
  induction log using List.reverseRecOn with
  | nil => exact Or.inl fun d => rfl
  | append_singleton log w ih =>
    simp only [view_append, apply_syncRanges]
    have hrest : (∀ d, (log.foldl (fun d w => Store.apply w d) d).syncRanges.lookup id =
        d.syncRanges.lookup id) ∨ ∃ v,
          (∀ d, (log.foldl (fun d w => Store.apply w d) d).syncRanges.lookup id = v) ∧
          ∀ r, v = some r → .insertRange id r ∈ log ++ [w] := by
      rcases ih with h | ⟨v, hv, hins⟩
      · exact Or.inl h
      · exact Or.inr ⟨v, hv, fun r h => List.mem_append_left _ (hins r h)⟩
    cases w with
    | insertRange other range =>
      by_cases hk : id = other
      · subst hk
        exact Or.inr ⟨some range, fun d => AList.lookup_insert _, fun r h => by cases h; simp⟩
      · simpa only [AList.lookup_insert_ne hk] using hrest
    | deleteRange other =>
      by_cases hk : id = other
      · subst hk
        exact Or.inr ⟨none, fun d => AList.lookup_erase _ _, fun r h => by cases h⟩
      · simpa only [AList.lookup_erase_ne hk] using hrest
    | _ => exact hrest

/-! ### The protocol -/

/-- Every range has all its raw rows. -/
def Database.Covered (d : Database) : Prop :=
  ∀ id r, d.syncRanges.lookup id = some r → d.Present r.assetId r.startTimestamp r.endTimestamp

/-- While a session holds the advisory lock of an asset, the others take none of its raw rows away
and add none of its ranges. -/
def coverageProtocol (ι : Type) : Protocol ι Database Lock where
  Inv := Database.Covered
  Rely _ held _ d d' := ∀ a, .syncAdvisory a ∈ held →
    (∀ key : CandleKey, key.assetId = a → (d.raw.lookup key).isSome →
      (d'.raw.lookup key).isSome) ∧
    ∀ id r, d'.syncRanges.lookup id = some r → r.assetId = a → d.syncRanges.lookup id = some r
  rely_refl := fun _ _ _ _ _ _ => ⟨fun _ _ h => h, fun _ _ h _ => h⟩
  rely_trans := by
    intro _ _ _ d d' d'' h h' a ha
    refine ⟨fun key hk hd => (h' a ha).1 key hk ((h a ha).1 key hk hd), fun id r hr hra => ?_⟩
    exact (h a ha).2 id r ((h' a ha).2 id r hr hra) hra

/-- The state of a session whose deletions of the keys in `doomed` still have to look for ranges:
what it sees is covered but for these keys, and it holds the advisory locks of the assets whose
other rows it deleted or whose ranges it inserted. -/
structure Pending (doomed : List CandleKey) (c : Ctx Write Lock) (d : Database) : Prop where
  covered : d.Covered
  seen : ∀ id r, (c.view d).syncRanges.lookup id = some r → ∀ key : CandleKey,
    key.assetId = r.assetId → r.startTimestamp ≤ key.timestamp → key.timestamp ≤ r.endTimestamp →
      ((c.view d).raw.lookup key).isSome ∨ key ∈ doomed
  deleted : ∀ key, .deleteRaw key ∈ c.log → .syncAdvisory key.assetId ∈ c.held ∨ key ∈ doomed
  inserted : ∀ id r, .insertRange id r ∈ c.log → .syncAdvisory r.assetId ∈ c.held

section
variable {ι : Type} {i : ι} {doomed : List CandleKey} {c : Ctx Write Lock} {d d' : Database}

/-- A raw row that a session sees under the advisory lock of its asset stays. -/
theorem seen_raw_kept (he : (coverageProtocol ι).Env i c d d') {key : CandleKey}
    (hheld : .syncAdvisory key.assetId ∈ c.held) (h : ((c.view d).raw.lookup key).isSome) :
    ((c.view d').raw.lookup key).isSome := by
  rcases view_raw c key with huntouched | ⟨v, hv, -⟩
  · rw [huntouched] at h ⊢
    exact (he.1 _ hheld).1 key rfl h
  · rwa [hv] at h ⊢

/-- A range that a session sees under the advisory lock of its asset was seen before. -/
theorem seen_range_old (he : (coverageProtocol ι).Env i c d d') {id : ℕ} {r : SyncRange}
    (hheld : .syncAdvisory r.assetId ∈ c.held) (h : (c.view d').syncRanges.lookup id = some r) :
    (c.view d).syncRanges.lookup id = some r := by
  rcases view_syncRanges c id with huntouched | ⟨v, hv, -⟩
  · rw [huntouched] at h ⊢
    exact (he.1 _ hheld).2 id r h rfl
  · rwa [hv] at h ⊢

/-- Nothing that the others do spoils a pending state. -/
theorem Pending.stable (h : Pending doomed c d) (he : (coverageProtocol ι).Env i c d d') :
    Pending doomed c d' := by
  refine ⟨he.2, fun id r hr key hka hlow hhigh => ?_, h.deleted, h.inserted⟩
  by_cases hheld : .syncAdvisory r.assetId ∈ c.held
  · have hold := seen_range_old he hheld hr
    rcases h.seen id r hold key hka hlow hhigh with hraw | hdoomed
    · exact Or.inl (seen_raw_kept he (hka ▸ hheld) hraw)
    · exact Or.inr hdoomed
  · -- without the lock the range is not the session's own, and neither is a deletion
    have hrange : d'.syncRanges.lookup id = some r := by
      rcases view_syncRanges c id with huntouched | ⟨v, hv, hins⟩
      · rwa [huntouched] at hr
      · rw [hv] at hr
        exact absurd (h.inserted id r (hins r hr)) hheld
    have hraw : (d'.raw.lookup key).isSome := he.2 id r hrange key hka hlow hhigh
    rcases view_raw c key with huntouched | ⟨v, hv, hdel⟩
    · rw [huntouched]
      exact Or.inl hraw
    · rw [hv]
      cases v with
      | some row => exact Or.inl rfl
      | none =>
        rcases h.deleted key (hdel rfl) with hlock | hdoomed
        · exact absurd (hka ▸ hlock) hheld
        · exact Or.inr hdoomed

theorem Pending.hold (h : Pending doomed c d) (l : Lock) : Pending doomed (c.hold l) d :=
  ⟨h.covered, h.seen, fun key hk => (h.deleted key hk).imp_left (List.mem_cons_of_mem _),
    fun id r hr => List.mem_cons_of_mem _ (h.inserted id r hr)⟩

/-- Every write but a deleted row and an inserted range is harmless. -/
def Harmless : Write → Prop
  | .deleteRaw _ => False
  | .insertRange _ _ => False
  | _ => True

theorem Pending.push (h : Pending doomed c d) {w : Write} (hw : Harmless w) :
    Pending doomed (c.push w) d := by
  refine ⟨h.covered, fun id r hr key hka hlow hhigh => ?_, fun key hk => ?_, fun id r hr => ?_⟩
  · rw [Ctx.view_push] at hr ⊢
    rw [apply_syncRanges] at hr
    rw [apply_raw]
    have hseen (hr : (c.view d).syncRanges.lookup id = some r) :=
      h.seen id r hr key hka hlow hhigh
    cases w with
    | deleteRaw key => cases hw
    | insertRange id range => cases hw
    | putRaw writer other row =>
      by_cases hk : key = other
      · subst hk
        exact Or.inl (by rw [AList.lookup_insert]; rfl)
      · rw [AList.lookup_insert_ne hk]
        exact hseen hr
    | deleteRange other =>
      by_cases hid : id = other
      · subst hid
        rw [AList.lookup_erase] at hr
        cases hr
      · rw [AList.lookup_erase_ne hid] at hr
        exact hseen hr
    | _ => exact hseen hr
  · rcases List.mem_append.mp hk with hk | hk
    · exact h.deleted key hk
    · rw [← List.mem_singleton.mp hk] at hw
      cases hw
  · rcases List.mem_append.mp hr with hr | hr
    · exact h.inserted id r hr
    · rw [← List.mem_singleton.mp hr] at hw
      cases hw

/-- A deleted row is doomed until its ranges are gone. -/
theorem Pending.push_deleteRaw (h : Pending doomed c d) (key : CandleKey) :
    Pending (key :: doomed) (c.push (.deleteRaw key)) d := by
  refine ⟨h.covered, fun id r hr other hka hlow hhigh => ?_, fun other hk => ?_, fun id r hr => ?_⟩
  · rw [Ctx.view_push] at hr ⊢
    rw [apply_syncRanges] at hr
    rw [apply_raw]
    by_cases hk : other = key
    · exact Or.inr (hk ▸ List.mem_cons_self)
    · rw [AList.lookup_erase_ne hk]
      exact (h.seen id r hr other hka hlow hhigh).imp_right (List.mem_cons_of_mem _)
  · rcases List.mem_append.mp hk with hk | hk
    · exact (h.deleted other hk).imp_right (List.mem_cons_of_mem _)
    · cases List.mem_singleton.mp hk
      exact Or.inr List.mem_cons_self
  · rcases List.mem_append.mp hr with hr | hr
    · exact h.inserted id r hr
    · cases List.mem_singleton.mp hr

/-- Once no range contains a deleted row, its deletion is complete. -/
theorem Pending.settle {key : CandleKey} (h : Pending (key :: doomed) c d)
    (hheld : .syncAdvisory key.assetId ∈ c.held)
    (hnone : ∀ id r, (c.view d).syncRanges.lookup id = some r → r.assetId = key.assetId →
      r.startTimestamp ≤ key.timestamp → key.timestamp ≤ r.endTimestamp → False) :
    Pending doomed c d := by
  refine ⟨h.covered, fun id r hr other hka hlow hhigh => ?_, fun other hk => ?_, h.inserted⟩
  · rcases h.seen id r hr other hka hlow hhigh with hraw | hdoomed
    · exact Or.inl hraw
    · rcases List.mem_cons.mp hdoomed with rfl | hdoomed
      · exact (hnone id r hr hka.symm hlow hhigh).elim
      · exact Or.inr hdoomed
  · rcases h.deleted other hk with hlock | hdoomed
    · exact Or.inl hlock
    · rcases List.mem_cons.mp hdoomed with rfl | hdoomed
      · exact Or.inl hheld
      · exact Or.inr hdoomed

/-- A range may be inserted under the lock of its asset over rows that are seen. -/
theorem Pending.push_insertRange (h : Pending doomed c d) {r : SyncRange} (id : ℕ)
    (hheld : .syncAdvisory r.assetId ∈ c.held)
    (hpresent : (c.view d).Present r.assetId r.startTimestamp r.endTimestamp) :
    Pending doomed (c.push (.insertRange id r)) d := by
  refine ⟨h.covered, fun other r' hr key hka hlow hhigh => ?_, fun key hk => ?_, fun other r' hr => ?_⟩
  · rw [Ctx.view_push] at hr ⊢
    rw [apply_syncRanges] at hr
    rw [apply_raw]
    by_cases hid : other = id
    · subst hid
      rw [AList.lookup_insert] at hr
      cases hr
      exact Or.inl (hpresent key hka hlow hhigh)
    · rw [AList.lookup_insert_ne hid] at hr
      exact h.seen other r' hr key hka hlow hhigh
  · rcases List.mem_append.mp hk with hk | hk
    · exact h.deleted key hk
    · cases List.mem_singleton.mp hk
  · rcases List.mem_append.mp hr with hr | hr
    · exact h.inserted other r' hr
    · cases List.mem_singleton.mp hr
      exact hheld

theorem Pending.start (h : d.Covered) (held : List Lock) (owned : List ℕ) :
    Pending [] { held := held, owned := owned } d :=
  ⟨h, fun id r hr key hka hlow hhigh => Or.inl (h id r hr key hka hlow hhigh),
    fun _ hk => absurd hk List.not_mem_nil, fun _ _ hr => absurd hr List.not_mem_nil⟩

/-- A session with no doomed row may commit. -/
theorem Pending.commit (h : Pending [] c d) :
    (coverageProtocol ι).Guar i c d (c.view d) ∧ Pending [] c.release (c.view d) := by
  have hcovered : (c.view d).Covered := fun id r hr key hka hlow hhigh =>
    (h.seen id r hr key hka hlow hhigh).resolve_right List.not_mem_nil
  refine ⟨⟨hcovered, ?_, fun _ _ h => h, trivial⟩, Pending.start hcovered _ _⟩
  intro j hj held owned hapart _ a ha
  have hfree : .syncAdvisory a ∉ c.held := hapart _ ha
  refine ⟨fun key hka hraw => ?_, fun id r hr hra => ?_⟩
  · rcases view_raw c key with huntouched | ⟨v, hv, hdel⟩
    · rwa [huntouched]
    · rw [hv]
      cases v with
      | some row => rfl
      | none =>
        have hlock := (h.deleted key (hdel rfl)).resolve_right List.not_mem_nil
        exact absurd (hka ▸ hlock) hfree
  · rcases view_syncRanges c id with huntouched | ⟨v, hv, hins⟩
    · rwa [huntouched] at hr
    · rw [hv] at hr
      exact absurd (hra ▸ h.inserted id r (hins r hr)) hfree

theorem pending_sessionInv (i : ι) : (coverageProtocol ι).SessionInv i (Pending []) where
  stable _ _ _ h he := h.stable he
  hold _ _ l h := h.hold l
  own _ _ _ h _ _ := ⟨h.covered, h.seen, h.deleted, h.inserted⟩
  commit _ _ h := h.commit
  rollback _ _ h := Pending.start h.covered _ _

end

/-! ### The statements of the protocol -/

theorem anyQuestion : LocalQuestions fun _ => True := ⟨trivial, trivial, trivial⟩

section
open Protocol
variable {ι α : Type} {O : (q : Question) → Answer q → Prop} {i : ι}

theorem keeps_harmless {p : Task α} (hp : p.Emits O Harmless fun _ => True) :
    (coverageProtocol ι).Keeps O i (Pending []) p :=
  (pending_sessionInv i).keeps_of_emits (fun _ hw _ _ h => h.push hw) hp

theorem UpsertWrite.harmless {writer : Writer} {w : Write} (h : UpsertWrite writer w) :
    Harmless w := by
  cases w <;> first | exact h | trivial

theorem StagedWrite.harmless {w : Write} (h : StagedWrite w) : Harmless w := by
  cases w <;> first | exact h | trivial

theorem keeps_lockRanges (ids : List ℕ) :
    (coverageProtocol ι).Keeps O i (Pending []) (lockRanges ids) :=
  keeps_harmless (emits_lockRows _ _ _ _)

/-- The trigger's check under the advisory lock still holds when the row is inserted. -/
theorem keeps_insertSyncRange (assetId : ℕ) (start stop : ℤ) :
    (coverageProtocol ι).Keeps O i (Pending []) (insertSyncRange assetId start stop) := by
  let Locked (c : Ctx Write Lock) (d : Database) : Prop :=
    Pending [] c d ∧ .syncAdvisory assetId ∈ c.held
  let Proved (c : Ctx Write Lock) (d : Database) : Prop :=
    Locked c d ∧ (c.view d).Present assetId start stop
  have hproved : ∀ c d d', Proved c d → (coverageProtocol ι).Env i c d d' → Proved c d' := by
    rintro c d d' ⟨⟨h, hheld⟩, hpresent⟩ he
    refine ⟨⟨h.stable he, hheld⟩, fun key hka hlow hhigh => ?_⟩
    exact seen_raw_kept he (hka ▸ hheld) (hpresent key hka hlow hhigh)
  refine (keeps_harmless emits_draw).bind fun id => ?_
  refine Triple.seq (fun _ => Locked) (triple_acquire fun c d d' h he =>
    ⟨(h.stable he).hold _, List.mem_cons_self⟩) fun _ => ?_
  refine (triple_look fun c d d' h he => ⟨h.1.stable he, h.2⟩).bind fun s => ?_
  by_cases hcheck : s.rawBlockIsComplete assetId start stop = true
  · rw [hcheck]
    by_cases hle : start ≤ stop
    · simp only [Bool.not_true, Bool.false_eq_true, if_false, dif_pos hle]
      have hstart : ∀ c d, (Locked c d ∧ s = c.view d) → Proved c d := by
        rintro c d ⟨h, rfl⟩
        exact ⟨h, (rawBlockIsComplete_iff.mp hcheck).2.2.2⟩
      refine Triple.seq (fun _ => Proved) (triple_view fun c d d' h he =>
        hproved _ _ _ (hstart c d h) he) fun s' => ?_
      have hlock : (coverageProtocol ι).Triple O i (Pending []) Proved
          (lockRanges (s'.rangesMeeting assetId start stop)) fun _ => Proved := by
        refine (triple_lockRows (I := fun _ _ => Proved) (fun _ _ => hproved) ?_ ?_ ?_
          (le_refl _) [])
        · exact fun _ _ _ c d h =>
            ⟨⟨h.1.1.hold _, List.mem_cons_of_mem _ h.1.2⟩, h.2⟩
        · exact fun _ _ _ _ _ _ h _ => h
        · exact fun _ _ _ _ _ h _ => h
      refine hlock.bind fun conflicts => ?_
      split
      · exact triple_emit fun c d h => h.1.1.push_insertRange id h.1.2 h.2
      · exact triple_raise fun c d h => h.1.1
    · simp only [Bool.not_true, Bool.false_eq_true, if_false, dif_neg hle]
      exact triple_raise fun c d h => h.1.1
  · rw [Bool.not_eq_true] at hcheck
    rw [hcheck]
    exact triple_raise fun c d h => h.1.1

theorem keeps_mergeVerifiedSyncRanges (assetId : ℕ) (start stop : ℤ) :
    (coverageProtocol ι).Keeps O i (Pending []) (mergeVerifiedSyncRanges assetId start stop) := by
  refine (keeps_harmless (emits_acquire _)).bind fun _ => ?_
  refine (keeps_harmless emits_view).bind fun d => (keeps_lockRanges _).bind fun overlaps => ?_
  have hdelete : (forEach (fun r => emit (.deleteRange r.1)) overlaps : Task Unit).Emits O Harmless
      fun _ => True := Emits.forEach fun r _ => (emits_emit _).mpr trivial
  exact (keeps_harmless hdelete).bind fun _ => keeps_insertSyncRange _ _ _

theorem keeps_updateSyncRanges (assetId : ℕ) (start stop : ℤ) :
    (coverageProtocol ι).Keeps O i (Pending []) (updateSyncRanges assetId start stop) := by
  refine (keeps_harmless emits_view).bind fun d => ?_
  split
  · exact keeps_mergeVerifiedSyncRanges _ _ _
  · exact keeps_harmless (emits_raise _)

theorem keeps_markVerifiedRawBlocks (assetId : ℕ) (blocks : List (ℤ × ℤ)) :
    (coverageProtocol ι).Keeps O i (Pending []) (markVerifiedRawBlocks assetId blocks) := by
  refine Keeps.forEach (fun block => (keeps_harmless emits_view).bind fun d => ?_) _
  split
  · exact keeps_mergeVerifiedSyncRanges _ _ _
  · exact keeps_harmless trivial

theorem keeps_upsertRawCandles (writer : Writer) (cs : List Candle) :
    (coverageProtocol ι).Keeps O i (Pending []) (upsertRawCandles writer cs) :=
  keeps_harmless ((emits_upsertRawCandles cs).mono fun _ => UpsertWrite.harmless)

theorem keeps_commitRawBatchInTransaction (writer : Writer) (assetId : ℕ)
    (batch : List CandlePayload) : (coverageProtocol ι).Keeps O i (Pending [])
      (commitRawBatchInTransaction writer assetId batch) := by
  unfold commitRawBatchInTransaction
  split
  · exact keeps_harmless trivial
  · refine (keeps_harmless (emits_now anyQuestion)).bind fun now => ?_
    refine (keeps_harmless (emits_ofExcept _)).bind fun candles => ?_
    refine (keeps_harmless (emits_acquire _)).bind fun _ => ?_
    refine (keeps_upsertRawCandles writer candles).bind fun _ => ?_
    refine (keeps_harmless (emits_ofExcept _)).bind fun blocks => ?_
    exact keeps_markVerifiedRawBlocks assetId blocks

theorem keeps_commitBatchInTransaction (writer : Writer) (assetId : ℕ)
    (batch : List CandlePayload) : (coverageProtocol ι).Keeps O i (Pending [])
      (commitBatchInTransaction writer assetId batch) := by
  have hstaged (historical : List Candle) :
      (coverageProtocol ι).Keeps O i (Pending []) (forEach upsertStagedCandle historical) :=
    keeps_harmless (Emits.forEach fun c _ =>
      (emits_upsertStagedCandle c).mono fun _ => StagedWrite.harmless)
  unfold commitBatchInTransaction
  split
  · exact keeps_harmless trivial
  · refine (keeps_harmless (emits_now anyQuestion)).bind fun now => ?_
    refine (keeps_harmless (emits_ofExcept _)).bind fun candles => ?_
    refine (keeps_harmless (emits_acquire _)).bind fun _ => ?_
    refine (keeps_harmless (emits_now anyQuestion)).bind fun now' => ?_
    dsimp only
    split
    · refine (keeps_upsertRawCandles writer _).bind fun _ => ?_
      refine (keeps_harmless (emits_ofExcept _)).bind fun blocks => ?_
      exact (keeps_markVerifiedRawBlocks assetId blocks).bind fun _ => hstaged _
    · exact hstaged _

theorem keeps_inTransaction {body : Task α} (hbody : (coverageProtocol ι).Keeps O i (Pending []) body) :
    (coverageProtocol ι).Keeps O i (Pending []) (Task.inTransaction body) := by
  have hconnection : (coverageProtocol ι).Keeps O i (Pending []) Task.connection :=
    keeps_harmless (emits_connection anyQuestion)
  refine hconnection.bind fun _ => ((pending_sessionInv i).keeps_transaction hbody).bind fun _ => ?_
  exact hconnection.bind fun _ => keeps_harmless trivial

/-! ### Deletions -/

/-- The ranges that still contain a deleted row are among the found rows or the keys to come. -/
def Hunted (doomed : List CandleKey) (key : CandleKey) (rows : List (ℕ × SyncRange)) (ids : List ℕ)
    (c : Ctx Write Lock) (d : Database) : Prop :=
  Pending (key :: doomed) c d ∧ .syncAdvisory key.assetId ∈ c.held ∧
    ∀ id r, (c.view d).syncRanges.lookup id = some r → r.assetId = key.assetId →
      r.startTimestamp ≤ key.timestamp → key.timestamp ≤ r.endTimestamp →
        id ∈ rows.map (·.1) ∨ id ∈ ids

theorem Hunted.stable {doomed : List CandleKey} {key : CandleKey} {rows : List (ℕ × SyncRange)}
    {ids : List ℕ} {c : Ctx Write Lock} {d d' : Database} (h : Hunted doomed key rows ids c d)
    (he : (coverageProtocol ι).Env i c d d') : Hunted doomed key rows ids c d' := by
  obtain ⟨hp, hheld, hall⟩ := h
  refine ⟨hp.stable he, hheld, fun id r hr ha hlow hhigh => ?_⟩
  exact hall id r (seen_range_old he (ha ▸ hheld) hr) ha hlow hhigh

/-- The ranges of a deleted row are locked, those that are gone excepted. -/
theorem hunted_lockRanges (doomed : List CandleKey) (key : CandleKey) (ids : List ℕ) :
    (coverageProtocol ι).Triple O i (Pending []) (Hunted doomed key [] ids) (lockRanges ids)
      fun rows => Hunted doomed key rows [] := by
  refine triple_lockRows (fun _ _ _ _ _ h he => h.stable he) ?_ ?_ ?_ (le_refl _) []
  · rintro rows id ids c d ⟨hp, hheld, hall⟩
    exact ⟨hp.hold _, List.mem_cons_of_mem _ hheld, hall⟩
  · rintro rows id ids c d r ⟨hp, hheld, hall⟩ hr
    refine ⟨hp, hheld, fun other r' hr' ha hlow hhigh => ?_⟩
    rcases hall other r' hr' ha hlow hhigh with hm | hm
    · exact Or.inl (by simp [hm])
    · rcases List.mem_cons.mp hm with rfl | hm
      · exact Or.inl (by simp)
      · exact Or.inr hm
  · rintro rows id ids c d ⟨hp, hheld, hall⟩ hr
    refine ⟨hp, hheld, fun other r' hr' ha hlow hhigh => ?_⟩
    rcases hall other r' hr' ha hlow hhigh with hm | hm
    · exact Or.inl hm
    · rcases List.mem_cons.mp hm with rfl | hm
      · rw [hr] at hr'
        cases hr'
      · exact Or.inr hm

/-- When the found ranges are gone the deletion is complete. -/
theorem hunted_deleteRanges (doomed : List CandleKey) (key : CandleKey)
    (rows : List (ℕ × SyncRange)) :
    (coverageProtocol ι).Triple O i (Pending []) (Hunted doomed key rows [])
      (forEach (fun r => emit (.deleteRange r.1)) rows : Task Unit) fun _ => Pending doomed := by
  induction rows with
  | nil =>
    refine triple_pure fun c d ⟨hp, hheld, hall⟩ => hp.settle hheld fun id r hr ha hlow hhigh => ?_
    rcases hall id r hr ha hlow hhigh with h | h <;> cases h
  | cons row rows ih =>
    refine Triple.seq (fun _ => Hunted doomed key rows []) (triple_emit ?_) fun _ => ih
    rintro c d ⟨hp, hheld, hall⟩
    refine ⟨hp.push trivial, hheld, fun id r hr ha hlow hhigh => ?_⟩
    rw [Ctx.view_push, apply_syncRanges] at hr
    have hne : id ≠ row.1 := by
      rintro rfl
      rw [AList.lookup_erase] at hr
      cases hr
    rw [AList.lookup_erase_ne hne] at hr
    rcases hall id r hr ha hlow hhigh with hm | hm
    · exact Or.inl ((List.mem_cons.mp hm).resolve_left hne)
    · cases hm

theorem mem_rangesMeeting {d : Database} {assetId id : ℕ} {start stop : ℤ} {r : SyncRange}
    (hr : d.syncRanges.lookup id = some r) (ha : r.assetId = assetId)
    (hlow : r.startTimestamp ≤ stop) (hhigh : start ≤ r.endTimestamp) :
    id ∈ d.rangesMeeting assetId start stop := by
  have hmem : (⟨id, r⟩ : Sigma fun _ => SyncRange) ∈ d.syncRanges.entries :=
    AList.mem_lookup_iff.mp hr
  refine List.mem_map.mpr ⟨⟨id, r⟩, List.mem_filter.mpr ⟨hmem, ?_⟩, rfl⟩
  simp [ha, hlow, hhigh]

theorem deleteRawCandle_dooms (doomed : List CandleKey) (key : CandleKey) :
    (coverageProtocol ι).Triple O i (Pending []) (Pending doomed) (deleteRawCandle key)
      fun deleted => Pending (deleted.toList ++ doomed) := by
  refine Triple.seq (fun _ => Pending doomed)
    (triple_acquire fun c d d' h he => (h.stable he).hold _) fun _ => ?_
  refine Triple.seq (fun _ => Pending doomed)
    (triple_view fun c d d' h he => h.stable he) fun d => ?_
  split
  · have hemit : (coverageProtocol ι).Triple O i (Pending []) (Pending doomed)
        (emit (.deleteRaw key) : Task Unit) fun _ => Pending (key :: doomed) :=
      triple_emit fun c d h => h.push_deleteRaw key
    exact hemit.bind fun _ => triple_pure fun c d h => h
  · exact triple_pure fun c d h => h

theorem deleteRawCandles_doom (doomed keys : List CandleKey) :
    (coverageProtocol ι).Triple O i (Pending []) (Pending doomed) (collect deleteRawCandle keys)
      fun deleted => Pending (deleted ++ doomed) := by
  induction keys generalizing doomed with
  | nil => exact triple_pure fun c d h => h
  | cons key keys ih =>
    refine (deleteRawCandle_dooms doomed key).bind fun first => ?_
    refine (ih (first.toList ++ doomed)).bind fun rest => triple_pure fun c d h => ?_
    refine ⟨h.covered, fun id r hr other hka hlow hhigh => ?_, fun other hk => ?_, h.inserted⟩
    · exact (h.seen id r hr other hka hlow hhigh).imp_right fun hm => by
        simp only [List.mem_append] at *; tauto
    · exact (h.deleted other hk).imp_right fun hm => by simp only [List.mem_append] at *; tauto

theorem invalidateSyncRange_settles (doomed : List CandleKey) (key : CandleKey) :
    (coverageProtocol ι).Triple O i (Pending []) (Pending (key :: doomed)) (invalidateSyncRange key)
      fun _ => Pending doomed := by
  refine Triple.seq (fun _ c d =>
    Pending (key :: doomed) c d ∧ .syncAdvisory key.assetId ∈ c.held)
    (triple_acquire fun c d d' h he => ⟨(h.stable he).hold _, List.mem_cons_self⟩) fun _ => ?_
  refine Triple.seq (fun s => Hunted doomed key []
    (s.rangesMeeting key.assetId key.timestamp key.timestamp))
    (triple_view fun c d d' h he => ⟨h.1.stable he, h.2, fun id r hr ha hlow hhigh =>
      Or.inr (mem_rangesMeeting hr ha hlow hhigh)⟩) fun s => ?_
  exact (hunted_lockRanges doomed key _).bind fun rows => hunted_deleteRanges doomed key rows

/-- A DELETE statement leaves no doomed row. -/
theorem keeps_deleteRawCandles (keys : List CandleKey) :
    (coverageProtocol ι).Keeps O i (Pending []) (deleteRawCandles keys) := by
  have hsettle (deleted : List CandleKey) : (coverageProtocol ι).Triple O i (Pending [])
      (Pending deleted) (forEach invalidateSyncRange deleted) fun _ => Pending [] := by
    induction deleted with
    | nil => exact triple_pure fun c d h => h
    | cons key rest ih => exact (invalidateSyncRange_settles rest key).bind fun _ => ih
  refine (deleteRawCandles_doom [] keys).bind fun deleted => ?_
  exact (hsettle deleted).pre fun c d h => by rwa [List.append_nil] at h

/-! ### Pages of the historical merge -/

theorem keeps_mergeOnePage (dayBucket : ℤ) (pageSize jobId workerId leaseToken : ℕ) :
    (coverageProtocol ι).Keeps O i (Pending [])
      (mergeOnePage dayBucket pageSize jobId workerId leaseToken) := by
  refine (keeps_harmless (emits_ownershipLost anyQuestion)).bind fun lost => ?_
  cases lost with
  | true => exact keeps_harmless trivial
  | false =>
    refine keeps_inTransaction ?_
    refine (keeps_harmless (mergeJobs.emits_assertOwnedLocked anyQuestion _ _ _)).bind fun _ => ?_
    refine (keeps_harmless emits_view).bind fun d => ?_
    refine (keeps_harmless (emits_lockRowsSkip _ _ _ _)).bind fun found => ?_
    obtain ⟨rows, complete⟩ := found
    dsimp only
    split
    · exact keeps_harmless trivial
    · refine (keeps_harmless (emits_ownershipLost anyQuestion)).bind fun lost => ?_
      cases lost with
      | true => exact keeps_harmless trivial
      | false =>
        refine (Keeps.forEach (fun group => ?_) _).bind fun _ => ?_
        · cases group with
          | nil => exact keeps_harmless trivial
          | cons row rows => exact keeps_commitRawBatchInTransaction _ _ _
        · have hunstage : (forEach (fun row => emit (.deleteStaged row.1)) rows : Task Unit).Emits O
              Harmless fun _ => True := Emits.forEach fun row _ => (emits_emit _).mpr trivial
          exact (keeps_harmless hunstage).bind fun _ => keeps_harmless trivial

end

/-! ### The system -/

/-- What a transaction may do to candles and ranges; `other` stands for every statement that neither
deletes a raw row nor inserts a range. -/
inductive CoverageStatement where
  | commitBatch (writer : Writer) (assetId : ℕ) (batch : List CandlePayload)
  | commitRawBatch (writer : Writer) (assetId : ℕ) (batch : List CandlePayload)
  | updateSyncRanges (assetId : ℕ) (newStart newEnd : ℤ)
  | deleteRawCandles (keys : List CandleKey)
  | other (statement : Task Unit)
    (harmless : statement.Emits (fun _ _ => True) Harmless fun _ => True)

def CoverageStatement.task : CoverageStatement → Task Unit
  | commitBatch writer assetId batch => commitBatchInTransaction writer assetId batch
  | commitRawBatch writer assetId batch => commitRawBatchInTransaction writer assetId batch
  | updateSyncRanges assetId newStart newEnd => Candles.updateSyncRanges assetId newStart newEnd
  | deleteRawCandles keys => Candles.deleteRawCandles keys
  | other statement _ => statement

/-- The programs of the sessions: transactions of any statements, and merge pages. -/
inductive CoverageProgram : Task Unit → Prop
  | transaction (statements : List CoverageStatement) :
      CoverageProgram (Task.inTransaction (forEach CoverageStatement.task statements))
  | mergePage (dayBucket : ℤ) (pageSize jobId workerId leaseToken : ℕ) :
      CoverageProgram do
        let _ ← mergeOnePage dayBucket pageSize jobId workerId leaseToken
        pure ()

/-- Any number of sessions over a covered store, whatever the surroundings answer. -/
def coverageSystem (ι : Type) : System ι Database Write Lock Answer Failure where
  oracle _ _ := True
  programs _ := CoverageProgram
  init := Database.Covered

section
open Protocol
variable {ι : Type}

theorem keeps_statement (i : ι) (statement : CoverageStatement) :
    (coverageProtocol ι).Keeps (fun _ _ => True) i (Pending []) statement.task := by
  cases statement with
  | commitBatch writer assetId batch => exact keeps_commitBatchInTransaction writer assetId batch
  | commitRawBatch writer assetId batch =>
    exact keeps_commitRawBatchInTransaction writer assetId batch
  | updateSyncRanges assetId newStart newEnd => exact keeps_updateSyncRanges _ _ _
  | deleteRawCandles keys => exact keeps_deleteRawCandles keys
  | other statement harmless => exact keeps_harmless harmless

theorem keeps_program (i : ι) {p : Task Unit} (hp : CoverageProgram p) :
    (coverageProtocol ι).Keeps (fun _ _ => True) i (Pending []) p := by
  cases hp with
  | transaction statements =>
    exact keeps_inTransaction (Keeps.forEach (fun s => keeps_statement i s) statements)
  | mergePage dayBucket pageSize jobId workerId leaseToken =>
    exact (keeps_mergeOnePage _ _ _ _ _).bind fun _ => keeps_harmless trivial

theorem coverageSystem_covered [DecidableEq ι] :
    (coverageSystem ι).Invariant fun w => w.db.Covered := by
  have hsound : Sound (coverageSystem ι) (coverageProtocol ι) := fun i p d hp hd =>
    (keeps_program i hp).rest (Pending.start hd [] [])
  intro w hw
  exact (sound hsound (fun d hd => ⟨hd, fun _ => trivial⟩) w hw).inv

/-- In every reachable state, every whole minute of every range has its raw row. -/
theorem sync_ranges_covered [DecidableEq ι] : (coverageSystem ι).Invariant fun w =>
    ∀ id range, w.db.syncRanges.lookup id = some range →
      ∀ t, range.startTimestamp ≤ t → t ≤ range.endTimestamp → ∀ h : t % minute = 0,
        (w.db.raw.lookup ⟨range.assetId, t, h⟩).isSome :=
  fun w hw id range hrange t hlow hhigh h =>
    coverageSystem_covered w hw id range hrange ⟨range.assetId, t, h⟩ rfl hlow hhigh

end
end Quantive.Candles
