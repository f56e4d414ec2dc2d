import Mathlib.Data.List.SplitBy
import Quantive.Candles.BatchesAlone
import Quantive.Candles.Promotion
import Quantive.ReadCommitted.LockOrder
import Quantive.ReadCommitted.Replay

/-!
# The locks of the candle writers

Committed batches, repairs, merge pages and deletions of raw rows, with the order in which they
ask for locks. The row of an asset comes before everything of the asset; a merge page holds its
staged rows before it has any asset, and both statements on `sync_ranges` and the advisory lock
of the triggers are taken in either order.
-/

namespace Quantive.Candles
open Quantive.ReadCommitted Prog

/-! ### The writers -/

inductive WriterProgram (assetOf : ℕ → ℕ) (Deletes : List CandleKey → Prop) : Task Unit → Prop
  | batch (assetId : ℕ) (batch : List CandlePayload) :
      WriterProgram assetOf Deletes (commitBatch assetId batch (pure ()))
  | repair (jobId workerId leaseToken : ℕ) (batch : List CandlePayload) :
      WriterProgram assetOf Deletes
        (commitOwnedBatch (assetOf jobId) jobId workerId leaseToken batch)
  | mergePage (dayBucket : ℤ) (pageSize jobId workerId leaseToken : ℕ) :
      WriterProgram assetOf Deletes (do
        let _ ← mergeOnePage dayBucket pageSize jobId workerId leaseToken
        pure ())
  | delete {keys : List CandleKey} (h : Deletes keys) :
      WriterProgram assetOf Deletes (Task.inTransaction (deleteRawCandles keys))

/-- Any number of writers over any database; `assetOf` is the asset of a gap job. -/
def candleWriters (ι : Type) (assetOf : ℕ → ℕ) (Deletes : List CandleKey → Prop) :
    System ι Database Write Lock Answer Failure where
  oracle _ _ := True
  programs _ := WriterProgram assetOf Deletes
  init _ := True

/-! ### Ranks -/

/-- A place in the order of the locks: assets one after the other, within an asset by kind of lock,
then by time. -/
structure Place where
  assetId : ℕ
  kind : ℕ
  time : ℤ

instance : Preorder Place where
  lt p q := p.assetId < q.assetId ∨
    p.assetId = q.assetId ∧ (p.kind < q.kind ∨ p.kind = q.kind ∧ p.time < q.time)
  le p q := p.assetId < q.assetId ∨
    p.assetId = q.assetId ∧ (p.kind < q.kind ∨ p.kind = q.kind ∧ p.time ≤ q.time)
  le_refl p := by omega
  le_trans p q r h h' := by omega
  lt_iff_le_not_ge p q := by omega

def place (assetId kind : ℕ) (t : ℤ) : Place := ⟨assetId, kind, t⟩

theorem place_lt {a a' n n' : ℕ} {t t' : ℤ} :
    place a n t < place a' n' t' ↔ a < a' ∨ a = a' ∧ (n < n' ∨ n = n' ∧ t < t') := Iff.rfl

/-- The rank of a lock, if it has one. -/
def lockRank (assetOf : ℕ → ℕ) : Lock → Option Place
  | .stagedCandle _ => none
  | .syncRange _ => none
  | .asset a => some (place (a + 1) 0 0)
  | .gapJob id => some (place (assetOf id + 1) 1 0)
  | .rawCandle key => some (place (key.assetId + 1) 3 key.timestamp)
  | .syncAdvisory a => some (place (a + 1) 4 0)
  | _ => some (place 0 0 0)

variable {assetOf : ℕ → ℕ} {held : List Lock}

/-- The locks that are before everything from kind `n` of the asset on. -/
def Before (assetOf : ℕ → ℕ) (a n : ℕ) (t : ℤ) (held : List Lock) : Prop :=
  Below (lockRank assetOf) held (place a n t)

theorem Before.mono {a a' n n' : ℕ} {t t' : ℤ} (h : Before assetOf a n t held)
    (hle : a < a' ∨ a = a' ∧ (n < n' ∨ n = n' ∧ t < t')) : Before assetOf a' n' t' held :=
  fun l hl s hs => (h l hl s hs).trans (place_lt.mpr hle)

theorem Before.nil (a n : ℕ) (t : ℤ) : Before assetOf a n t [] := fun _ hl => absurd hl List.not_mem_nil

theorem Before.cons {a n : ℕ} {t : ℤ} {l : Lock} (h : Before assetOf a n t held)
    (hl : ∀ s, lockRank assetOf l = some s → s < place a n t) :
    Before assetOf a n t (l :: held) := by
  intro m hm
  rcases List.mem_cons.mp hm with rfl | hm
  · exact hl
  · exact h m hm

theorem Before.ask {a n : ℕ} {t : ℤ} {l : Lock} (h : Before assetOf a n t held)
    (hl : lockRank assetOf l = some (place a n t)) : MayAsk (lockRank assetOf) held l := by
  refine Or.inr fun r hr => ?_
  obtain rfl : place a n t = r := Option.some.inj (hl.symm.trans hr)
  exact h

theorem mayAsk_unranked {l : Lock} (hl : lockRank assetOf l = none) :
    MayAsk (lockRank assetOf) held l :=
  Or.inr fun r hr => by
    rw [hl] at hr
    cases hr

theorem lt_of_unranked {l : Lock} (hl : lockRank assetOf l = none) {r : Place} (s : Place)
    (hs : lockRank assetOf l = some s) : s < r := by
  rw [hl] at hs
  cases hs

/-! ### Statements -/

section
variable {K ρ : Type} {J : List Lock → Prop} {lock : K → Lock} {row : Database → K → Option ρ}

theorem climb_ofExcept {α : Type} (r : Except Failure α) :
    Climb (lockRank assetOf) J (Task.ofExcept r) fun a held => r = .ok a ∧ J held := by
  cases r with
  | ok a => exact fun held hheld => ⟨rfl, hheld⟩
  | error e => exact climb_raise

theorem climb_lockRows (n : ℕ) {ks : List K}
    (h : ∀ k ∈ ks, ∀ held, J held →
      MayAsk (lockRank assetOf) held (lock k) ∧ J (lock k :: held)) :
    Climb (lockRank assetOf) J (Task.lockRows lock row n ks) fun _ => J := by
  induction ks generalizing n with
  | nil => cases n <;> exact fun _ hheld => hheld
  | cons k ks ih =>
    cases n with
    | zero => exact fun _ hheld => hheld
    | succ n =>
      have hrest := fun m => ih m fun k' hk => h k' (List.mem_cons_of_mem _ hk)
      refine (climb_acquire (h k List.mem_cons_self)).bind fun _ => climb_view.bind fun d => ?_
      cases row d k with
      | none => exact hrest (n + 1)
      | some r => exact (hrest n).bind fun _ => fun _ hheld => hheld

theorem climb_lockRowsSkip (n : ℕ) {ks : List K} (h : ∀ k held, J held → J (lock k :: held)) :
    Climb (lockRank assetOf) J (Task.lockRowsSkip lock row n ks) fun found held =>
      (found.1.map (·.1)).Sublist ks ∧ J held := by
  induction ks generalizing n with
  | nil => cases n <;> exact fun _ hheld => ⟨.slnil, hheld⟩
  | cons k ks ih =>
    cases n with
    | zero => exact fun _ hheld => ⟨List.nil_sublist _, hheld⟩
    | succ n =>
      have hskip : Climb (lockRank assetOf) J (Task.lockRowsSkip lock row (n + 1) ks)
          fun found held => (found.1.map (·.1)).Sublist (k :: ks) ∧ J held :=
        (ih (n + 1)).post fun _ _ hr => ⟨hr.1.cons k, hr.2⟩
      refine Climb.seq (fun _ => J)
        (climb_tryAcquire fun held hheld => ⟨h k held hheld, hheld⟩) fun locked => ?_
      cases locked with
      | true =>
        refine climb_view.bind fun d => ?_
        cases row d k with
        | none => exact hskip
        | some r => exact (ih n).bind fun _ => fun _ hr => ⟨hr.1.cons_cons k, hr.2⟩
      | false => exact hskip.bind fun _ => fun _ hr => hr

theorem climb_now : Climb (lockRank assetOf) J Task.now fun _ => J := climb_query

theorem climb_ownershipLost : Climb (lockRank assetOf) J Task.ownershipLost fun _ => J := climb_query

theorem climb_connection : Climb (lockRank assetOf) J Task.connection fun _ => J := by
  refine climb_query.bind fun r => ?_
  cases r with
  | none => exact fun _ hheld => hheld
  | some e => exact climb_raise

theorem climb_inTransaction {α : Type} {body : Task α} {T : α → List Lock → Prop}
    (h : Climb (lockRank assetOf) J body T) :
    Climb (lockRank assetOf) J (Task.inTransaction body) fun _ held => held = [] :=
  climb_connection.bind fun _ => h.transaction.bind fun _ =>
    climb_connection.bind fun _ => fun _ hheld => hheld

end

/-! ### Batches -/

/-- The row of the asset is locked, and nothing of the asset from kind `n` on. -/
structure Inside (assetOf : ℕ → ℕ) (a n : ℕ) (held : List Lock) : Prop where
  asset : .asset a ∈ held
  before : Before assetOf (a + 1) n 0 held

/-- A batch of the asset may begin. -/
def MayEnter (assetOf : ℕ → ℕ) (a : ℕ) (held : List Lock) : Prop :=
  Before assetOf (a + 1) 0 0 held ∨ Inside assetOf a 2 held

theorem Inside.cons {a n : ℕ} {l : Lock} (h : Inside assetOf a n held)
    (hl : ∀ s, lockRank assetOf l = some s → s < place (a + 1) n 0) :
    Inside assetOf a n (l :: held) :=
  ⟨List.mem_cons_of_mem _ h.asset, h.before.cons hl⟩

theorem Inside.mono {a n m : ℕ} (h : Inside assetOf a n held) (hle : n < m) :
    Inside assetOf a m held :=
  ⟨h.asset, h.before.mono (Or.inr ⟨rfl, Or.inl hle⟩)⟩

theorem lt_of_asset {a n : ℕ} (hn : 0 < n) (s : Place)
    (hs : lockRank assetOf (.asset a) = some s) : s < place (a + 1) n 0 := by
  obtain rfl : place (a + 1) 0 0 = s := Option.some.inj hs
  exact place_lt.mpr (Or.inr ⟨rfl, Or.inl hn⟩)

theorem climb_lockAsset (a : ℕ) : Climb (lockRank assetOf) (MayEnter assetOf a) (lockAsset a)
    fun _ => Inside assetOf a 2 := by
  refine climb_acquire fun held hheld => ?_
  rcases hheld with hbefore | hinside
  · have hlater : Before assetOf (a + 1) 2 0 held :=
      hbefore.mono (Or.inr ⟨rfl, Or.inl (Nat.succ_pos 1)⟩)
    exact ⟨hbefore.ask rfl, List.mem_cons_self, hlater.cons (lt_of_asset (Nat.succ_pos 1))⟩
  · exact ⟨Or.inl hinside.asset, hinside.cons (lt_of_asset (Nat.succ_pos 1))⟩

/-- Keys of one asset in the order of time. -/
def InOrder (keys : List CandleKey) : Prop :=
  keys.Pairwise fun k l => k.assetId = l.assetId ∧ k.timestamp < l.timestamp

/-- The locks before the raw rows that are left. -/
structure BeforeRows (assetOf : ℕ → ℕ) (a : ℕ) (keys : List CandleKey) (held : List Lock) :
    Prop where
  order : InOrder keys
  asset : ∀ k ∈ keys, k.assetId = a
  before : Before assetOf (a + 1) 4 0 held
  rows : ∀ k ∈ keys, Before assetOf (a + 1) 3 k.timestamp held

theorem BeforeRows.ask {a : ℕ} {key : CandleKey} {keys : List CandleKey}
    (h : BeforeRows assetOf a (key :: keys) held) :
    MayAsk (lockRank assetOf) held (.rawCandle key) ∧
      BeforeRows assetOf a keys (.rawCandle key :: held) := by
  obtain ⟨hfirst, horder⟩ := List.pairwise_cons.mp h.order
  have hkey : lockRank assetOf (.rawCandle key) = some (place (a + 1) 3 key.timestamp) := by
    rw [lockRank, h.asset key List.mem_cons_self]
  refine ⟨(h.rows key List.mem_cons_self).ask hkey, horder,
    fun k hk => h.asset k (List.mem_cons_of_mem _ hk), h.before.cons fun s hs => ?_,
    fun k hk => (h.rows k (List.mem_cons_of_mem _ hk)).cons fun s hs => ?_⟩
  · obtain rfl : place (a + 1) 3 key.timestamp = s := Option.some.inj (hkey.symm.trans hs)
    exact place_lt.mpr (Or.inr ⟨rfl, Or.inl (by omega)⟩)
  · obtain rfl : place (a + 1) 3 key.timestamp = s := Option.some.inj (hkey.symm.trans hs)
    exact place_lt.mpr (Or.inr ⟨rfl, Or.inr ⟨rfl, (hfirst k hk).2⟩⟩)

/-- A batch between its rows. -/
def Upserting (assetOf : ℕ → ℕ) (a : ℕ) (candles : List Candle) (held : List Lock) : Prop :=
  .asset a ∈ held ∧ BeforeRows assetOf a (candles.map (·.key)) held

theorem climb_appendRevision {J : List Lock → Prop} (key : CandleKey) (row : StoredCandle) :
    Climb (lockRank assetOf) J (appendRevision key row) fun _ => J := by
  refine climb_view.bind fun d => ?_
  split
  · exact climb_emit
  · exact fun _ hheld => hheld

theorem climb_upsertRawCandle (writer : Writer) (a : ℕ) (c : Candle) (cs : List Candle) :
    Climb (lockRank assetOf) (Upserting assetOf a (c :: cs)) (upsertRawCandle writer c)
      fun _ => Upserting assetOf a cs := by
  unfold upsertRawCandle
  cases c.excluded with
  | none => exact climb_raise
  | some new =>
    have hask : ∀ held, Upserting assetOf a (c :: cs) held →
        MayAsk (lockRank assetOf) held (.rawCandle c.key) ∧
          Upserting assetOf a cs (.rawCandle c.key :: held) := fun held hheld =>
      ⟨hheld.2.ask.1, List.mem_cons_of_mem _ hheld.1, hheld.2.ask.2⟩
    refine (climb_acquire hask).bind fun _ => climb_view.bind fun d => ?_
    extract_lets accepted
    clear_value accepted
    cases accepted with
    | none => exact fun _ hheld => hheld
    | some row =>
      dsimp only
      split
      · exact climb_raise
      · exact climb_emit.bind fun _ => (climb_appendRevision c.key row).bind fun _ =>
          fun _ hheld => hheld

/-- The locks of a batch whose rows are written. -/
theorem climb_upsertRawCandles (writer : Writer) (a : ℕ) {candles : List Candle}
    (horder : InOrder (candles.map (·.key))) (hasset : ∀ c ∈ candles, c.key.assetId = a) :
    Climb (lockRank assetOf) (Inside assetOf a 2) (upsertRawCandles writer candles)
      fun _ => Inside assetOf a 4 := by
  have hrows : Climb (lockRank assetOf) (Upserting assetOf a candles)
      (collect (upsertRawCandle writer) candles) fun _ held =>
        (∀ r ∈ _, True) ∧ Upserting assetOf a [] held :=
    climb_collect (fun c cs => (climb_upsertRawCandle writer a c cs).post
      fun _ _ h => ⟨fun _ _ => trivial, h⟩) candles
  refine (hrows.pre fun held hheld => ?_).bind fun changed => ?_
  · refine ⟨hheld.asset, horder, fun k hk => ?_, (hheld.mono (by omega)).before, fun k _ =>
      hheld.before.mono (Or.inr ⟨rfl, Or.inl (by omega)⟩)⟩
    obtain ⟨c, hc, rfl⟩ := List.mem_map.mp hk
    exact hasset c hc
  · refine Climb.seq (fun _ => Inside assetOf a 4) ?_ fun _ => fun _ hheld => hheld
    have hloop : Climb (lockRank assetOf) (Inside assetOf a 4)
        (forEach (fun r => appendRevision r.1 r.2) changed) fun _ => Inside assetOf a 4 :=
      climb_forEach (I := fun _ => Inside assetOf a 4)
        (fun r _ => climb_appendRevision r.1 r.2) changed
    exact hloop.pre fun held hheld => ⟨hheld.2.1, hheld.2.2.before⟩

/-! ### Coverage -/

/-- The locks while the ranges of an asset are merged. -/
structure Covering (assetOf : ℕ → ℕ) (a : ℕ) (held : List Lock) : Prop where
  asset : .asset a ∈ held
  advisory : .syncAdvisory a ∈ held ∨ Before assetOf (a + 1) 4 0 held
  before : Before assetOf (a + 1) 5 0 held

theorem Inside.covering {a : ℕ} (h : Inside assetOf a 4 held) : Covering assetOf a held :=
  ⟨h.asset, Or.inr h.before, (h.mono (by omega)).before⟩

theorem Covering.range {a : ℕ} (h : Covering assetOf a held) (id : ℕ) :
    MayAsk (lockRank assetOf) held (.syncRange id) ∧
      Covering assetOf a (.syncRange id :: held) :=
  ⟨mayAsk_unranked rfl, List.mem_cons_of_mem _ h.asset,
    h.advisory.imp (List.mem_cons_of_mem _) fun hb => hb.cons (lt_of_unranked rfl),
    h.before.cons (lt_of_unranked rfl)⟩

theorem Covering.lockAsset {a : ℕ} (h : Covering assetOf a held) :
    MayAsk (lockRank assetOf) held (.asset a) ∧ Covering assetOf a (.asset a :: held) :=
  ⟨Or.inl h.asset, List.mem_cons_self,
    h.advisory.imp (List.mem_cons_of_mem _) fun hb => hb.cons (lt_of_asset (by omega)),
    h.before.cons (lt_of_asset (by omega))⟩

theorem lt_of_advisory {a : ℕ} (s : Place)
    (hs : lockRank assetOf (.syncAdvisory a) = some s) : s < place (a + 1) 5 0 := by
  obtain rfl : place (a + 1) 4 0 = s := Option.some.inj hs
  exact place_lt.mpr (Or.inr ⟨rfl, Or.inl (by omega)⟩)

theorem Covering.lockAdvisory {a : ℕ} (h : Covering assetOf a held) :
    MayAsk (lockRank assetOf) held (.syncAdvisory a) ∧
      Covering assetOf a (.syncAdvisory a :: held) :=
  ⟨h.advisory.elim Or.inl fun hb => hb.ask rfl, List.mem_cons_of_mem _ h.asset,
    Or.inl List.mem_cons_self, h.before.cons lt_of_advisory⟩

theorem climb_lockRanges {J : List Lock → Prop} (hJ : ∀ id held, J held → J (.syncRange id :: held))
    (ids : List ℕ) : Climb (lockRank assetOf) J (lockRanges ids) fun _ => J :=
  climb_lockRows _ fun id _ held hheld => ⟨mayAsk_unranked rfl, hJ id held hheld⟩

theorem climb_insertSyncRange (a : ℕ) (start stop : ℤ) :
    Climb (lockRank assetOf) (Covering assetOf a) (insertSyncRange a start stop)
      fun _ => Covering assetOf a := by
  refine climb_draw.bind fun id => (climb_acquire fun _ h => h.lockAdvisory).bind fun _ =>
    climb_view.bind fun d => ?_
  split
  · exact climb_raise
  · split
    · refine climb_view.bind fun d' =>
        (climb_lockRanges (fun id held h => (h.range id).2) _).bind fun conflicts => ?_
      split
      · exact climb_emit
      · exact climb_raise
    · exact climb_raise

theorem climb_mergeVerifiedSyncRanges (a : ℕ) (start stop : ℤ) :
    Climb (lockRank assetOf) (Covering assetOf a) (mergeVerifiedSyncRanges a start stop)
      fun _ => Covering assetOf a := by
  refine (climb_acquire fun _ h => h.lockAsset).bind fun _ => climb_view.bind fun d => ?_
  refine (climb_lockRanges (fun id held h => (h.range id).2) _).bind fun overlaps => ?_
  refine Climb.seq (fun _ => Covering assetOf a) ?_ fun _ => climb_insertSyncRange a _ _
  exact climb_forEach (I := fun _ => Covering assetOf a) (fun r _ => climb_emit) overlaps

theorem climb_markVerifiedRawBlocks (a : ℕ) (blocks : List (ℤ × ℤ)) :
    Climb (lockRank assetOf) (Covering assetOf a) (markVerifiedRawBlocks a blocks)
      fun _ => Covering assetOf a := by
  refine climb_forEach (I := fun _ => Covering assetOf a) (fun block _ => ?_) blocks
  refine climb_view.bind fun d => ?_
  split
  · exact climb_mergeVerifiedSyncRanges a _ _
  · exact fun _ hheld => hheld

/-! ### Transactions -/

theorem blocksFrom_increasing {start previous : ℤ} {rest : List ℤ} {blocks : List (ℤ × ℤ)}
    (h : blocksFrom start previous rest = .ok blocks) : (previous :: rest).Pairwise (· < ·) := by
  suffices hchain : (previous :: rest).IsChain (· < ·) from List.isChain_iff_pairwise.mp hchain
  induction rest generalizing start previous blocks with
  | nil => exact .singleton previous
  | cons current rest ih =>
    unfold blocksFrom at h
    by_cases hle : current ≤ previous
    · rw [if_pos hle] at h
      cases h
    · rw [if_neg hle] at h
      have hlt : previous < current := not_le.mp hle
      by_cases hgap : current - previous ≠ minute
      · rw [if_pos hgap] at h
        cases hrest : blocksFrom current current rest with
        | error e =>
          rw [hrest] at h
          cases h
        | ok found => exact .cons_cons hlt (ih hrest)
      · rw [if_neg hgap] at h
        exact .cons_cons hlt (ih h)

/-- Every batch that validation lets through is of one asset and in the order of time. -/
theorem prepareBatch_inOrder {a : ℕ} {now : ℤ} {batch : List CandlePayload}
    {candles : List Candle} (h : prepareBatch a now batch = .ok candles) :
    InOrder (candles.map (·.key)) ∧ ∀ c ∈ candles, c.key.assetId = a := by
  have hasset : ∀ c ∈ candles, c.key.assetId = a := by
    have hall := prepareBatch_ok h
    clear h
    induction hall with
    | nil => exact fun c hc => absurd hc List.not_mem_nil
    | cons hp _ ih =>
      intro c hc
      rcases List.mem_cons.mp hc with rfl | hc
      · exact (validateCandlePayload_ok hp).1
      · exact ih c hc
  refine ⟨?_, hasset⟩
  have htimes : (candles.map (·.key.timestamp)).Pairwise (· < ·) := by
    unfold prepareBatch at h
    cases hmap : batch.mapM (validateCandlePayload a now) with
    | error e =>
      rw [hmap] at h
      cases h
    | ok found =>
      rw [hmap] at h
      change (contiguousBlocks (found.map (·.key.timestamp)) >>= fun _ => pure found) = _ at h
      cases hblocks : contiguousBlocks (found.map (·.key.timestamp)) with
      | error e =>
        rw [hblocks] at h
        cases h
      | ok blocks =>
        rw [hblocks] at h
        cases h
        cases htimes : candles.map (·.key.timestamp) with
        | nil => exact .nil
        | cons t rest =>
          rw [htimes] at hblocks
          exact blocksFrom_increasing hblocks
  rw [InOrder, List.pairwise_map]
  rw [List.pairwise_map] at htimes
  refine htimes.imp_of_mem fun hc hc' hlt => ⟨?_, hlt⟩
  rw [hasset _ hc, hasset _ hc']

theorem InOrder.filter {candles : List Candle} (h : InOrder (candles.map (·.key)))
    (q : Candle → Bool) : InOrder ((candles.filter q).map (·.key)) :=
  h.sublist (List.filter_sublist.map _)

/-- After a batch nothing of a later asset is locked. -/
def Through (assetOf : ℕ → ℕ) (a : ℕ) (held : List Lock) : Prop := Before assetOf (a + 1) 5 0 held

theorem climb_upsertStagedCandle (a : ℕ) (c : Candle) :
    Climb (lockRank assetOf) (Through assetOf a) (upsertStagedCandle c)
      fun _ => Through assetOf a := by
  unfold upsertStagedCandle
  cases c.excluded with
  | none => exact climb_raise
  | some new =>
    have hask : ∀ held, Through assetOf a held →
        MayAsk (lockRank assetOf) held (.stagedCandle c.key) ∧
          Through assetOf a (.stagedCandle c.key :: held) := fun held hheld =>
      ⟨mayAsk_unranked rfl, Before.cons hheld (lt_of_unranked rfl)⟩
    refine (climb_acquire hask).bind fun _ => climb_view.bind fun d => ?_
    split
    · exact climb_emit
    · split
      · exact fun _ hheld => hheld
      · exact climb_emit

theorem climb_upsertStagedCandles (a : ℕ) (cs : List Candle) :
    Climb (lockRank assetOf) (Through assetOf a) (forEach upsertStagedCandle cs)
      fun _ => Through assetOf a :=
  climb_forEach (I := fun _ => Through assetOf a) (fun c _ => climb_upsertStagedCandle a c) cs

/-- The raw part of a batch. -/
theorem climb_writeBlocks (writer : Writer) (a : ℕ) {candles : List Candle}
    (horder : InOrder (candles.map (·.key))) (hasset : ∀ c ∈ candles, c.key.assetId = a) :
    Climb (lockRank assetOf) (Inside assetOf a 2) (do
      let _ ← upsertRawCandles writer candles
      let blocks ← Task.ofExcept (contiguousBlocks (candles.map (·.key.timestamp)))
      markVerifiedRawBlocks a blocks) fun _ => Through assetOf a := by
  refine (climb_upsertRawCandles writer a horder hasset).bind fun _ => ?_
  refine (climb_ofExcept _).bind fun blocks => Climb.fact fun _ => ?_
  exact (climb_markVerifiedRawBlocks a blocks).conseq (fun _ h => h.covering) fun _ _ h => h.before

theorem MayEnter.through {a : ℕ} (h : MayEnter assetOf a held) : Through assetOf a held :=
  h.elim (fun hb => hb.mono (Or.inr ⟨rfl, Or.inl (by omega)⟩)) fun hi =>
    hi.before.mono (Or.inr ⟨rfl, Or.inl (by omega)⟩)

theorem climb_commitRawBatchInTransaction (writer : Writer) (a : ℕ) (batch : List CandlePayload) :
    Climb (lockRank assetOf) (MayEnter assetOf a) (commitRawBatchInTransaction writer a batch)
      fun _ => Through assetOf a := by
  unfold commitRawBatchInTransaction
  split
  · exact fun _ hheld => hheld.through
  · refine climb_now.bind fun now => (climb_ofExcept _).bind fun candles => Climb.fact fun hok => ?_
    obtain ⟨horder, hasset⟩ := prepareBatch_inOrder hok
    exact (climb_lockAsset a).bind fun _ => climb_writeBlocks writer a horder hasset

theorem climb_commitBatchInTransaction (writer : Writer) (a : ℕ) (batch : List CandlePayload) :
    Climb (lockRank assetOf) (MayEnter assetOf a) (commitBatchInTransaction writer a batch)
      fun _ => Through assetOf a := by
  unfold commitBatchInTransaction
  split
  · exact fun _ hheld => hheld.through
  · refine climb_now.bind fun now => (climb_ofExcept _).bind fun candles => Climb.fact fun hok => ?_
    obtain ⟨horder, hasset⟩ := prepareBatch_inOrder hok
    refine (climb_lockAsset a).bind fun _ => climb_now.bind fun instant => ?_
    dsimp only
    split
    · have hlive : ∀ q : Candle → Bool, ∀ c ∈ candles.filter q, c.key.assetId = a :=
        fun q c hc => hasset c (List.mem_of_mem_filter hc)
      refine (climb_upsertRawCandles writer a (horder.filter _) (hlive _)).bind fun _ => ?_
      refine (climb_ofExcept _).bind fun blocks => Climb.fact fun _ => ?_
      have hmark : Climb (lockRank assetOf) _ _ _ := climb_markVerifiedRawBlocks a blocks
      refine (hmark.conseq (fun _ h => h.covering) fun _ _ h => h.before).bind fun _ => ?_
      exact climb_upsertStagedCandles a _
    · exact (climb_upsertStagedCandles a _).pre fun _ h => h.before.mono (Or.inr ⟨rfl, Or.inl (by omega)⟩)

theorem climb_commitBatch (a : ℕ) (batch : List CandlePayload) :
    Climb (lockRank assetOf) (· = []) (commitBatch a batch (pure ())) fun _ held => held = [] := by
  unfold commitBatch
  split
  · exact fun _ hheld => hheld
  · have hbody : Climb (lockRank assetOf) _ _ _ := climb_commitBatchInTransaction .direct a batch
    refine (climb_inTransaction (hbody.pre fun held hheld => ?_))
    rw [hheld]
    exact Or.inl (Before.nil _ _ _)

theorem climb_assertOwnedLocked {J : Type} {T : JobTable J} {Pre Post : List Lock → Prop} {jobId : ℕ}
    (h : ∀ held, Pre held →
      MayAsk (lockRank assetOf) held (T.lock jobId) ∧ Post (T.lock jobId :: held))
    (workerId leaseToken : ℕ) :
    Climb (lockRank assetOf) Pre (T.assertOwnedLocked jobId workerId leaseToken) fun _ => Post := by
  refine climb_now.bind fun now => ?_
  refine Climb.seq (fun _ => Post) ?_ fun rows => ?_
  · refine (climb_acquire h).bind fun _ => climb_view.bind fun d => ?_
    dsimp only
    cases T.select d (T.owned now workerId leaseToken) jobId with
    | none => exact fun _ hheld => hheld
    | some r => exact fun _ hheld => hheld
  · split
    · exact climb_raise
    · exact fun _ hheld => hheld

theorem climb_commitOwnedBatch (jobId workerId leaseToken : ℕ) (batch : List CandlePayload) :
    Climb (lockRank assetOf) (· = [])
      (commitOwnedBatch (assetOf jobId) jobId workerId leaseToken batch)
      fun _ held => held = [] := by
  refine climb_ownershipLost.bind fun lost => ?_
  cases lost with
  | true => exact climb_raise
  | false =>
    have henter : ∀ held, held = [] → MayAsk (lockRank assetOf) held (.asset (assetOf jobId)) ∧
        Inside assetOf (assetOf jobId) 1 (.asset (assetOf jobId) :: held) := by
      rintro held rfl
      exact ⟨(Before.nil _ _ _).ask rfl, List.mem_cons_self,
        (Before.nil _ _ _).cons (lt_of_asset (by omega))⟩
    have hjob : ∀ held, Inside assetOf (assetOf jobId) 1 held →
        MayAsk (lockRank assetOf) held (.gapJob jobId) ∧
          Inside assetOf (assetOf jobId) 2 (.gapJob jobId :: held) := by
      intro held hheld
      refine ⟨hheld.before.ask rfl, (hheld.mono (by omega)).cons fun s hs => ?_⟩
      obtain rfl : place (assetOf jobId + 1) 1 0 = s := Option.some.inj hs
      exact place_lt.mpr (Or.inr ⟨rfl, Or.inl (by omega)⟩)
    refine climb_inTransaction (T := fun _ => Through assetOf (assetOf jobId))
      ((climb_acquire henter).bind fun _ => ?_)
    refine (climb_assertOwnedLocked (T := gapRepairJobs) hjob _ _).bind fun _ => ?_
    refine climb_ownershipLost.bind fun lost => ?_
    cases lost with
    | true => exact climb_raise
    | false => exact (climb_commitBatchInTransaction _ _ _).pre fun _ h => Or.inr h

/-! ### Merge pages -/

theorem stagedKeys_sorted (d : Database) (start stop : ℤ) :
    (d.stagedKeys start stop).Pairwise fun k l => k.assetId ≤ l.assetId := by
  have htotal : Std.Total fun k l : CandleKey =>
      k.assetId < l.assetId ∨ k.assetId = l.assetId ∧ k.timestamp ≤ l.timestamp :=
    ⟨fun k l => by omega⟩
  have htrans : IsTrans CandleKey fun k l =>
      k.assetId < l.assetId ∨ k.assetId = l.assetId ∧ k.timestamp ≤ l.timestamp :=
    ⟨fun _ _ _ h h' => by omega⟩
  have hsorted := List.pairwise_insertionSort (fun k l : CandleKey =>
    k.assetId < l.assetId ∨ k.assetId = l.assetId ∧ k.timestamp ≤ l.timestamp)
      (d.staging.keys.filter fun k => start ≤ k.timestamp && k.timestamp < stop)
  exact hsorted.imp fun h => by omega

/-- The first row of one group is of a smaller asset than the first row of the other. -/
def Earlier (g g' : List (CandleKey × StoredCandle)) : Prop :=
  ∃ r ∈ g.head?, ∃ s ∈ g'.head?, r.1.assetId < s.1.assetId

theorem Earlier.trans {g g' g'' : List (CandleKey × StoredCandle)} (h : Earlier g g')
    (h' : Earlier g' g'') : Earlier g g'' := by
  obtain ⟨r, hr, s, hs, hlt⟩ := h
  obtain ⟨s', hs', t, ht, hlt'⟩ := h'
  obtain rfl : s = s' := Option.some.inj (hs.symm.trans hs')
  exact ⟨r, hr, t, ht, hlt.trans hlt'⟩

/-- Rows by asset fall into groups of increasing assets. -/
theorem groups_ascend {rows : List (CandleKey × StoredCandle)}
    (h : (rows.map (·.1)).Pairwise fun k l => k.assetId ≤ l.assetId) :
    (rows.splitBy fun r s => r.1.assetId = s.1.assetId).Pairwise Earlier := by
  have hchain := List.isChain_getLast_head_splitBy
    (fun r s : CandleKey × StoredCandle => decide (r.1.assetId = s.1.assetId)) rows
  rw [List.pairwise_map, ← List.flatten_splitBy
    (fun r s : CandleKey × StoredCandle => decide (r.1.assetId = s.1.assetId)) rows] at h
  have : Trans Earlier Earlier Earlier := ⟨fun h h' => h.trans h'⟩
  rw [← List.isChain_iff_pairwise]
  revert h hchain
  generalize (rows.splitBy fun r s => decide (r.1.assetId = s.1.assetId)) = groups
  intro h hchain
  induction groups with
  | nil => exact .nil
  | cons g gs ih =>
    rw [List.flatten_cons, List.pairwise_append] at h
    cases gs with
    | nil => exact .singleton g
    | cons g' gs =>
      rw [List.isChain_cons_cons] at hchain
      obtain ⟨⟨hg, hg', hne⟩, hrest⟩ := hchain
      refine .cons_cons ⟨g.head hg, List.head?_eq_some_head hg, g'.head hg',
        List.head?_eq_some_head hg', ?_⟩ (ih h.2.1 hrest)
      have hcross : (g.getLast hg).1.assetId ≤ (g'.head hg').1.assetId :=
        h.2.2 _ (List.getLast_mem hg) _ (List.mem_append_left _ (List.head_mem hg'))
      have hgroup : (g.head hg).1.assetId ≤ (g.getLast hg).1.assetId := by
        cases g with
        | nil => exact absurd rfl hg
        | cons r g =>
          rcases List.mem_cons.mp (List.getLast_mem hg) with heq | hm
          · rw [heq]
            exact le_refl _
          · exact (List.pairwise_cons.mp h.1).1 _ hm
      have hdiff := of_decide_eq_false hne
      omega

/-- The locks before the groups that are left. -/
def BeforeGroups (assetOf : ℕ → ℕ) (groups : List (List (CandleKey × StoredCandle)))
    (held : List Lock) : Prop :=
  groups.Pairwise Earlier ∧
    ∀ g ∈ groups, ∀ r ∈ g.head?, Before assetOf (r.1.assetId + 1) 0 0 held

theorem climb_promoteGroup (jobId : ℕ) (g : List (CandleKey × StoredCandle))
    (groups : List (List (CandleKey × StoredCandle))) :
    Climb (lockRank assetOf) (BeforeGroups assetOf (g :: groups)) (promoteGroup jobId g)
      fun _ => BeforeGroups assetOf groups := by
  cases g with
  | nil =>
    exact fun held hheld => ⟨(List.pairwise_cons.mp hheld.1).2,
      fun g hg => hheld.2 g (List.mem_cons_of_mem _ hg)⟩
  | cons row rest =>
    have horder : Climb (lockRank assetOf) (BeforeGroups assetOf ((row :: rest) :: groups))
        (promoteGroup jobId (row :: rest)) fun _ held =>
          (((row :: rest) :: groups).Pairwise Earlier) ∧ Through assetOf row.1.assetId held := by
      have hbatch : Climb (lockRank assetOf) _ _ _ := climb_commitRawBatchInTransaction
        (.mergeJob jobId) row.1.assetId ((row :: rest).map stagedPayload)
      intro held hheld
      refine (hbatch.post fun _ _ hthrough => ⟨hheld.1, hthrough⟩) held ?_
      exact Or.inl (hheld.2 _ List.mem_cons_self row rfl)
    refine horder.post fun _ held hheld => ⟨(List.pairwise_cons.mp hheld.1).2, fun g hg r hr => ?_⟩
    obtain ⟨r', hr', s, hs, hlt⟩ := (List.pairwise_cons.mp hheld.1).1 g hg
    obtain rfl : row = r' := Option.some.inj hr'
    obtain rfl : r = s := Option.some.inj (hr.symm.trans hs)
    exact Before.mono hheld.2 (Or.inl (by omega))

theorem climb_mergeOnePage (dayBucket : ℤ) (pageSize jobId workerId leaseToken : ℕ) :
    Climb (lockRank assetOf) (· = []) (mergeOnePage dayBucket pageSize jobId workerId leaseToken)
      fun _ held => held = [] := by
  -- the job is below every asset, the staged rows have no rank
  let Low (held : List Lock) : Prop := ∀ a, Before assetOf (a + 1) 0 0 held
  refine climb_ownershipLost.bind fun lost => ?_
  cases lost with
  | true => exact climb_raise
  | false =>
    have hjob : ∀ held, held = [] →
        MayAsk (lockRank assetOf) held (.mergeJob jobId) ∧ Low (.mergeJob jobId :: held) := by
      rintro held rfl
      refine ⟨(Before.nil 0 0 0).ask rfl, fun a => (Before.nil _ _ _).cons fun s hs => ?_⟩
      obtain rfl : place 0 0 0 = s := Option.some.inj hs
      exact place_lt.mpr (Or.inl (by omega))
    have hstaged : ∀ k held, Low held → Low (.stagedCandle k :: held) :=
      fun k held hheld a => (hheld a).cons (lt_of_unranked rfl)
    refine climb_inTransaction (T := fun _ _ => True) ?_
    refine (climb_assertOwnedLocked (T := mergeJobs) hjob _ _).bind fun _ => ?_
    refine climb_view.bind fun d => (climb_lockRowsSkip pageSize hstaged).bind fun found => ?_
    refine Climb.fact fun hsublist => ?_
    obtain ⟨rows, complete⟩ := found
    have hgroups := groups_ascend ((stagedKeys_sorted _ _ _).sublist hsublist)
    dsimp only
    split
    · exact fun _ _ => trivial
    · refine climb_ownershipLost.bind fun lost => ?_
      cases lost with
      | true => exact climb_raise
      | false =>
        have hpromote := climb_forEach (I := BeforeGroups assetOf) (climb_promoteGroup jobId)
          (rows.splitBy fun r s => r.1.assetId = s.1.assetId)
        refine (hpromote.pre fun held hheld => ⟨hgroups, fun _ _ r _ => hheld _⟩).bind fun _ => ?_
        refine Climb.seq (fun _ _ => True) ?_ fun _ => fun _ _ => trivial
        exact (climb_forEach (I := fun _ _ => True) (fun r _ => climb_emit) rows).pre
          fun _ _ => trivial

/-! ### Deletions -/

/-- A deletion between its rows. -/
theorem climb_deleteRawCandle (a : ℕ) (key : CandleKey) (keys : List CandleKey) :
    Climb (lockRank assetOf) (BeforeRows assetOf a (key :: keys)) (deleteRawCandle key)
      fun deleted held => (∀ k ∈ deleted, k.assetId = a) ∧ BeforeRows assetOf a keys held := by
  have hkey : ∀ held, BeforeRows assetOf a (key :: keys) held →
      MayAsk (lockRank assetOf) held (.rawCandle key) ∧
        (key.assetId = a ∧ BeforeRows assetOf a keys (.rawCandle key :: held)) :=
    fun held hheld => ⟨hheld.ask.1, hheld.asset key List.mem_cons_self, hheld.ask.2⟩
  refine (climb_acquire (T := fun held => key.assetId = a ∧ BeforeRows assetOf a keys held)
    hkey).bind fun _ => climb_view.bind fun d => ?_
  split
  · refine climb_emit.bind fun _ => fun held hheld => ⟨fun k hk => ?_, hheld.2⟩
    obtain rfl : key = k := Option.some.inj hk
    exact hheld.1
  · exact fun held hheld => ⟨fun k hk => absurd hk (Option.not_mem_none k), hheld.2⟩

/-- The locks while the ranges of deleted rows are removed. -/
def Invalidating (assetOf : ℕ → ℕ) (a : ℕ) (keys : List CandleKey) (held : List Lock) : Prop :=
  (∀ k ∈ keys, k.assetId = a) ∧
    (.syncAdvisory a ∈ held ∨ Before assetOf (a + 1) 4 0 held)

theorem climb_invalidateSyncRange (a : ℕ) (key : CandleKey) (keys : List CandleKey) :
    Climb (lockRank assetOf) (Invalidating assetOf a (key :: keys)) (invalidateSyncRange key)
      fun _ => Invalidating assetOf a keys := by
  have hadvisory : ∀ held, Invalidating assetOf a (key :: keys) held →
      MayAsk (lockRank assetOf) held (.syncAdvisory key.assetId) ∧
        Invalidating assetOf a keys (.syncAdvisory key.assetId :: held) := by
    intro held hheld
    rw [hheld.1 key List.mem_cons_self]
    exact ⟨hheld.2.elim Or.inl fun hb => hb.ask rfl,
      fun k hk => hheld.1 k (List.mem_cons_of_mem _ hk), Or.inl List.mem_cons_self⟩
  have hrange : ∀ id held, Invalidating assetOf a keys held →
      Invalidating assetOf a keys (.syncRange id :: held) := fun id held hheld =>
    ⟨hheld.1, hheld.2.imp (List.mem_cons_of_mem _) fun hb => hb.cons (lt_of_unranked rfl)⟩
  refine (climb_acquire hadvisory).bind fun _ => climb_view.bind fun d => ?_
  refine (climb_lockRanges hrange _).bind fun ranges => ?_
  exact climb_forEach (I := fun _ => Invalidating assetOf a keys) (fun r _ => climb_emit) ranges

theorem climb_deleteRawCandles {keys : List CandleKey} (h : InOrder keys) :
    Climb (lockRank assetOf) (· = []) (deleteRawCandles keys) fun _ _ => True := by
  obtain ⟨a, ha⟩ : ∃ a, ∀ k ∈ keys, k.assetId = a := by
    cases keys with
    | nil => exact ⟨0, fun k hk => absurd hk List.not_mem_nil⟩
    | cons key keys =>
      refine ⟨key.assetId, fun k hk => ?_⟩
      rcases List.mem_cons.mp hk with rfl | hk
      · rfl
      · exact ((List.pairwise_cons.mp h).1 k hk).1.symm
  have hrows : Climb (lockRank assetOf) (BeforeRows assetOf a keys) (collect deleteRawCandle keys)
      fun deleted held => (∀ k ∈ deleted, k.assetId = a) ∧ BeforeRows assetOf a [] held :=
    climb_collect (climb_deleteRawCandle a) keys
  refine (hrows.pre fun held hheld => ?_).bind fun deleted => ?_
  · rw [hheld]
    exact ⟨h, ha, Before.nil _ _ _, fun k _ => Before.nil _ _ _⟩
  · have hloop := climb_forEach (I := Invalidating assetOf a) (climb_invalidateSyncRange a) deleted
    exact hloop.conseq (fun held hheld => ⟨hheld.1, Or.inr hheld.2.before⟩) fun _ _ _ => trivial

/-! ### Waiting in a circle -/

theorem climbing_writer {p : Task Unit} (h : WriterProgram assetOf InOrder p) :
    p.Climbing (lockRank assetOf) [] := by
  cases h with
  | batch a batch => exact (climb_commitBatch a batch).climbing
  | repair jobId workerId leaseToken batch =>
    exact (climb_commitOwnedBatch jobId workerId leaseToken batch).climbing
  | mergePage dayBucket pageSize jobId workerId leaseToken =>
    have hpage : Climb (lockRank assetOf) _ _ _ :=
      climb_mergeOnePage dayBucket pageSize jobId workerId leaseToken
    exact Climb.climbing (T := fun _ _ => True) (hpage.bind fun _ => fun _ _ => trivial)
  | delete h => exact (climb_inTransaction (climb_deleteRawCandles h)).climbing

/-- Locks that the writers take in either order. -/
def eitherOrder : Lock → Bool
  | .stagedCandle _ => true
  | .syncRange _ => true
  | _ => false

/-- A candle of the first minute. -/
def minuteZero : CandlePayload :=
  { timestamp := 0, «open» := some 1, high := some 1, low := some 1, close := some 1
    volume := some 0 }

def batchOfThePast : Task Unit := commitBatch 1 [minuteZero] (pure ())

def writersAfter (d : Database) (schedule : List (Move ℕ Database Write Lock Answer Failure)) :
    Bench ℕ Database Write Lock Answer Failure := Bench.play { db := d } schedule

theorem reachable_writers {assetOf : ℕ → ℕ} {Deletes : List CandleKey → Prop} (d : Database)
    {schedule : List (Move ℕ Database Write Lock Answer Failure)}
    (h : ∀ m ∈ schedule, (candleWriters ℕ assetOf Deletes).Allows m) :
    (candleWriters ℕ assetOf Deletes).Reachable (writersAfter d schedule).world :=
  .of_schedule trivial h

/-- The second batch waits for the row of the asset that the first one has. -/
def twoBatches : List (Move ℕ Database Write Lock Answer Failure) :=
  [.start 0 batchOfThePast, .run 0 5 (steady (30 * day)),
    .start 1 batchOfThePast, .run 1 100 (steady (30 * day))]

/-- A staged row of the first minute, and the worker that merges its day. -/
def oneStagedRow : Database :=
  { staging := (∅ : Table CandleKey StoredCandle).insert ⟨1, 0, Int.zero_emod minute⟩
      { values := ⟨1, 1, 1, 1, 0⟩, source := "binance_rest", valid := by decide
        positive := Nat.one_pos }
    mergeJobs := (∅ : Table ℕ HistoricalMergeJob).insert 0
      { dayBucket := 0, status := .processing, claim := some ⟨1, 2, 0, 40 * day⟩, createdAt := 0 } }

/-- The batch takes the asset, the page its staged row; then each needs what the other has. -/
def crossing : List (Move ℕ Database Write Lock Answer Failure) :=
  [.start 1 batchOfThePast, .run 1 3 (steady (30 * day)),
    .start 0 (do
      let _ ← mergeOnePage 0 10 0 1 2
      pure ()),
    .run 0 100 (steady (30 * day)), .run 1 100 (steady (30 * day))]

end Quantive.Candles
