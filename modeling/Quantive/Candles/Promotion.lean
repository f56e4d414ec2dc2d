import Mathlib.Data.List.SplitBy
import Quantive.Candles.Offers

/-!
# Promotion of staged candles

A merge page deletes the staged rows it holds in the transaction that offers them to the raw rows
of their keys, and every other statement only adds candles. So a key that was staged or canonical
once stays known, and a staged row goes only where its values went.
-/

namespace Quantive.Candles
open Quantive.ReadCommitted Prog

/-- A candle of the key is staged or canonical. -/
def Database.Known (d : Database) (key : CandleKey) : Prop :=
  (d.staging.lookup key).isSome ∨ (d.raw.lookup key).isSome

/-! ### What a page offers -/

/-- `new` is what a staged row is offered as at `now`. -/
structure Promotes (now : ℤ) (row : StoredCandle) (new : Content) : Prop where
  values : new.values = row.values
  source : payloadSource (some row.source) = .ok new.source
  sourceEventTime : new.sourceEventTime = row.sourceEventTime
  sourceReceivedAt : new.sourceReceivedAt = some (row.sourceReceivedAt.getD now)

/-- Every row has its offer, in order. -/
def Matches : List (CandleKey × StoredCandle) → List (CandleKey × Content) → Prop :=
  List.Forall₂ fun r o => o.1 = r.1 ∧ ∃ now, Promotes now r.2 o.2

theorem mapM_ok {α β : Type} {f : α → Except Failure β} {xs : List α} {ys : List β}
    (h : xs.mapM f = .ok ys) : List.Forall₂ (fun x y => f x = .ok y) xs ys := by
  induction xs generalizing ys with
  | nil =>
    cases h
    exact .nil
  | cons x xs ih =>
    rw [List.mapM_cons] at h
    cases hx : f x with
    | error e =>
      rw [hx] at h
      cases h
    | ok y =>
      rw [hx] at h
      cases hxs : xs.mapM f with
      | error e =>
        rw [hxs] at h
        cases h
      | ok rest =>
        rw [hxs] at h
        cases h
        exact .cons hx (ih hxs)

theorem prepareBatch_ok {assetId : ℕ} {now : ℤ} {batch : List CandlePayload}
    {candles : List Candle} (h : prepareBatch assetId now batch = .ok candles) :
    List.Forall₂ (fun p c => validateCandlePayload assetId now p = .ok c) batch candles := by
  unfold prepareBatch at h
  cases hmap : batch.mapM (validateCandlePayload assetId now) with
  | error e =>
    rw [hmap] at h
    cases h
  | ok found =>
    rw [hmap] at h
    have hfound := mapM_ok hmap
    change (contiguousBlocks (found.map (·.key.timestamp)) >>= fun _ => pure found) = _ at h
    cases hblocks : contiguousBlocks (found.map (·.key.timestamp)) with
    | error e =>
      rw [hblocks] at h
      cases h
    | ok blocks =>
      rw [hblocks] at h
      cases h
      exact hfound

/-- What validation lets through keeps the key. -/
theorem validateCandlePayload_ok {assetId : ℕ} {now : ℤ} {p : CandlePayload} {c : Candle}
    (h : validateCandlePayload assetId now p = .ok c) :
    c.key.assetId = assetId ∧ c.key.timestamp = p.timestamp ∧ p.assetId.getD assetId = assetId ∧
      payloadSource p.source = .ok c.source ∧ payloadValues p = .ok c.values ∧
      c.sourceEventTime = p.sourceEventTime ∧
      c.sourceReceivedAt = some (p.sourceReceivedAt.getD now) := by
  unfold validateCandlePayload at h
  by_cases haligned : p.timestamp % minute = 0
  · rw [dif_pos haligned] at h
    by_cases hasset : p.assetId.getD assetId = assetId
    · rw [if_neg (not_not.mpr hasset)] at h
      cases hsource : payloadSource p.source with
      | error e =>
        rw [hsource] at h
        cases h
      | ok source =>
        rw [hsource] at h
        cases hvalues : payloadValues p with
        | error e =>
          rw [hvalues] at h
          cases h
        | ok values =>
          rw [hvalues] at h
          cases h
          exact ⟨rfl, rfl, hasset, rfl, rfl, rfl, rfl⟩
    · rw [if_pos hasset] at h
      cases h
  · rw [dif_neg haligned] at h
    cases h

theorem prepareBatch_mem {assetId : ℕ} {now : ℤ} {batch : List CandlePayload}
    {candles : List Candle} (h : prepareBatch assetId now batch = .ok candles) {p : CandlePayload}
    (hp : p ∈ batch) :
    ∃ c ∈ candles, c.key.assetId = assetId ∧ c.key.timestamp = p.timestamp := by
  have hall := prepareBatch_ok h
  clear h
  induction hall with
  | nil => cases hp
  | @cons q c batch candles hq _ ih =>
    rcases List.mem_cons.mp hp with rfl | hp
    · have hkey := validateCandlePayload_ok hq
      exact ⟨c, List.mem_cons_self, hkey.1, hkey.2.1⟩
    · obtain ⟨c', hc', hkey⟩ := ih hp
      exact ⟨c', List.mem_cons_of_mem _ hc', hkey⟩

theorem payloadValues_staged {row : CandleKey × StoredCandle} {values : Option Ohlcv}
    (h : payloadValues (stagedPayload row) = .ok values) : values = some row.2.values := by
  change (do checkOhlcv _; pure (some _)) = _ at h
  cases hcheck : checkOhlcv row.2.values with
  | error e =>
    rw [show checkOhlcv ⟨row.2.values.open, row.2.values.high, row.2.values.low,
      row.2.values.close, row.2.values.volume⟩ = .error e from hcheck] at h
    cases h
  | ok u =>
    rw [show checkOhlcv ⟨row.2.values.open, row.2.values.high, row.2.values.low,
      row.2.values.close, row.2.values.volume⟩ = .ok u from hcheck] at h
    cases h
    rfl

theorem CandleKey.eq_of {k l : CandleKey} (ha : k.assetId = l.assetId)
    (ht : k.timestamp = l.timestamp) : k = l := by
  obtain ⟨a, t, h⟩ := k
  obtain ⟨b, u, h'⟩ := l
  obtain rfl : a = b := ha
  obtain rfl : t = u := ht
  rfl

/-- The candle of a staged row. -/
theorem validate_staged {assetId : ℕ} {now : ℤ} {row : CandleKey × StoredCandle} {c : Candle}
    {new : StoredCandle} (h : validateCandlePayload assetId now (stagedPayload row) = .ok c)
    (hnew : c.excluded = some new) : c.key = row.1 ∧ Promotes now row.2 new.content := by
  obtain ⟨hasset, htime, hsame, hsource, hvalues, hevent, hreceived⟩ := validateCandlePayload_ok h
  have hrow := payloadValues_staged hvalues
  refine ⟨CandleKey.eq_of (hasset.trans hsame.symm) htime, ?_⟩
  unfold Candle.excluded at hnew
  rw [hrow] at hnew
  dsimp only at hnew
  by_cases hv : row.2.values.Valid
  · rw [dif_pos hv] at hnew
    cases hnew
    exact ⟨rfl, hsource, hevent, hreceived⟩
  · rw [dif_neg hv] at hnew
    cases hnew

theorem prepareBatch_matches {assetId : ℕ} {now : ℤ} {rows : List (CandleKey × StoredCandle)}
    {candles : List Candle} (h : prepareBatch assetId now (rows.map stagedPayload) = .ok candles)
    (hall : ∀ c ∈ candles, c.excluded.isSome) : Matches rows (candles.filterMap Candle.offer) := by
  have hrows := List.forall₂_map_left_iff.mp (prepareBatch_ok h)
  clear h
  induction hrows with
  | nil => exact .nil
  | @cons row c rows candles hrow _ ih =>
    obtain ⟨new, hnew⟩ := Option.isSome_iff_exists.mp (hall c List.mem_cons_self)
    obtain ⟨hkey, hpromotes⟩ := validate_staged hrow hnew
    have hoffer : c.offer = some (c.key, new.content) := by
      unfold Candle.offer
      rw [hnew]
      rfl
    rw [List.filterMap_cons_some hoffer]
    exact .cons ⟨hkey, now, hpromotes⟩ (ih fun x hx => hall x (List.mem_cons_of_mem _ hx))

theorem Matches.keys {rows : List (CandleKey × StoredCandle)}
    {offered : List (CandleKey × Content)} (h : Matches rows offered) :
    offered.map (·.1) = rows.map (·.1) := by
  induction h with
  | nil => rfl
  | cons hrow _ ih => rw [List.map_cons, List.map_cons, hrow.1, ih]

/-- A row of a page is offered once. -/
theorem Matches.offersFor {rows : List (CandleKey × StoredCandle)}
    {offered : List (CandleKey × Content)} (h : Matches rows offered)
    (hnodup : (rows.map (·.1)).Nodup) {row : CandleKey × StoredCandle} (hrow : row ∈ rows) :
    ∃ now new, Promotes now row.2 new ∧ offersFor row.1 offered = [new] := by
  induction h with
  | nil => cases hrow
  | @cons r o rows offered hfirst hrest ih =>
    obtain ⟨hr, hrows⟩ := List.nodup_cons.mp hnodup
    rcases List.mem_cons.mp hrow with rfl | hm
    · obtain ⟨hkey, now, hpromotes⟩ := hfirst
      have hnone : Candles.offersFor row.1 offered = [] := by
        refine offersFor_eq_nil fun x hx he => hr ?_
        have hmem : x.1 ∈ offered.map (·.1) := List.mem_map_of_mem hx
        rwa [he, Matches.keys hrest] at hmem
      refine ⟨now, o.2, hpromotes, ?_⟩
      have hcons : Candles.offersFor row.1 (o :: offered) = o.2 :: Candles.offersFor row.1 offered := by
        simp [Candles.offersFor, hkey]
      rw [hcons, hnone]
    · have hne : o.1 ≠ row.1 := by
        rw [hfirst.1]
        intro he
        have hmem : row.1 ∈ rows.map (·.1) := List.mem_map_of_mem hm
        exact hr (show r.1 ∈ rows.map (·.1) from he ▸ hmem)
      have hskip : Candles.offersFor row.1 (o :: offered) = Candles.offersFor row.1 offered := by
        simp [Candles.offersFor, hne]
      rw [hskip]
      exact ih hrows hm

/-! ### The protocol -/

/-- Locked candle rows stay as they are. A commit forgets no key, and takes a staged row away only
when it offered the row to its key. -/
def promotionProtocol (ι : Type) : Protocol ι Database Lock where
  Inv _ := True
  Rely _ held _ d d' :=
    (∀ key, .rawCandle key ∈ held → d'.raw.lookup key = d.raw.lookup key) ∧
    ∀ key, .stagedCandle key ∈ held → d'.staging.lookup key = d.staging.lookup key
  Commit _ _ _ d d' :=
    (∀ key, d.Known key → d'.Known key) ∧
    ∀ key row, d.staging.lookup key = some row → d'.staging.lookup key = none →
      ∃ now new, Promotes now row new ∧ d'.content key = some (Content.offer (d.content key) new)
  rely_refl _ _ _ _ := ⟨fun _ _ => rfl, fun _ _ => rfl⟩
  rely_trans _ _ _ _ _ _ h h' :=
    ⟨fun key hk => (h'.1 key hk).trans (h.1 key hk), fun key hk => (h'.2 key hk).trans (h.2 key hk)⟩
  commit_refl _ _ _ _ := ⟨fun _ h => h, fun _ _ h h' => by rw [h] at h'; cases h'⟩

theorem promotion_locksRows (ι : Type) : LocksRows (promotionProtocol ι) where
  raw _ _ _ _ _ h := h.1
  staged _ _ _ _ _ h := h.2

theorem apply_staging (w : Write) (d : Database) : (Store.apply w d).staging = match w with
    | .putStaged key row => d.staging.insert key row
    | .deleteStaged key => d.staging.erase key
    | _ => d.staging := by
  cases w <;> rfl

/-- A log leaves the staged row of a key to the database or fixes it. -/
theorem view_staging (c : Ctx Write Lock) (key : CandleKey) :
    (∀ d, (c.view d).staging.lookup key = d.staging.lookup key) ∨
      ∃ v, ∀ d, (c.view d).staging.lookup key = v := by
  obtain ⟨held, owned, log⟩ := c
  simp only [Ctx.view]
  induction log using List.reverseRecOn with
  | nil => exact Or.inl fun d => rfl
  | append_singleton log w ih =>
    simp only [view_append, apply_staging]
    cases w with
    | putStaged other row =>
      by_cases hk : key = other
      · subst hk
        exact Or.inr ⟨some row, fun d => AList.lookup_insert _⟩
      · simpa only [AList.lookup_insert_ne hk] using ih
    | deleteStaged other =>
      by_cases hk : key = other
      · subst hk
        exact Or.inr ⟨none, fun d => AList.lookup_erase _ _⟩
      · simpa only [AList.lookup_erase_ne hk] using ih
    | _ => exact ih

/-! ### Sessions that add candles -/

/-- A write that takes no candle away and holds the lock of the candle it writes. -/
def Adds (held : List Lock) : Write → Prop
  | .putRaw _ key _ => .rawCandle key ∈ held
  | .putStaged key _ => .stagedCandle key ∈ held
  | .deleteRaw _ => False
  | .deleteStaged _ => False
  | _ => True

theorem Adds.mono {held held' : List Lock} (h : ∀ l ∈ held, l ∈ held') {w : Write}
    (hw : Adds held w) : Adds held' w := by
  cases w <;> first | exact h _ hw | exact hw

/-- What a log that only adds does to the rows of a key. -/
theorem view_adds {c : Ctx Write Lock} (h : ∀ w ∈ c.log, Adds c.held w) (key : CandleKey)
    (d : Database) :
    ((d.raw.lookup key).isSome → ((c.view d).raw.lookup key).isSome) ∧
    ((d.staging.lookup key).isSome → ((c.view d).staging.lookup key).isSome) ∧
    (.rawCandle key ∉ c.held → (c.view d).raw.lookup key = d.raw.lookup key) ∧
    (.stagedCandle key ∉ c.held → (c.view d).staging.lookup key = d.staging.lookup key) := by
  obtain ⟨held, owned, log⟩ := c
  simp only [Ctx.view]
  induction log using List.reverseRecOn with
  | nil => exact ⟨id, id, fun _ => rfl, fun _ => rfl⟩
  | append_singleton log w ih =>
    obtain ⟨hraw, hstaged, hfree, hfreeStaged⟩ := ih fun v hv => h v (List.mem_append_left _ hv)
    have hw : Adds held w := h w (by simp)
    simp only [view_append, apply_raw, apply_staging]
    cases w with
    | putRaw writer other row =>
      by_cases hk : key = other
      · subst hk
        exact ⟨fun _ => by rw [AList.lookup_insert]; rfl, hstaged, fun hn => absurd hw hn, hfreeStaged⟩
      · simp only [AList.lookup_insert_ne hk]
        exact ⟨hraw, hstaged, hfree, hfreeStaged⟩
    | putStaged other row =>
      by_cases hk : key = other
      · subst hk
        exact ⟨hraw, fun _ => by rw [AList.lookup_insert]; rfl, hfree, fun hn => absurd hw hn⟩
      · simp only [AList.lookup_insert_ne hk]
        exact ⟨hraw, hstaged, hfree, hfreeStaged⟩
    | deleteRaw other => exact hw.elim
    | deleteStaged other => exact hw.elim
    | _ => exact ⟨hraw, hstaged, hfree, hfreeStaged⟩

/-- The session holds a row of the key that is there in what it sees. -/
def Saved (key : CandleKey) (c : Ctx Write Lock) (d : Database) : Prop :=
  (.rawCandle key ∈ c.held ∧ ((c.view d).raw.lookup key).isSome) ∨
    (.stagedCandle key ∈ c.held ∧ ((c.view d).staging.lookup key).isSome)

/-- A session that only added candles, those of some keys among them. -/
structure Saves (keys : List CandleKey) (c : Ctx Write Lock) (d : Database) : Prop where
  adds : ∀ w ∈ c.log, Adds c.held w
  saved : ∀ key ∈ keys, Saved key c d

section
variable {ι : Type} {P : Protocol ι Database Lock} {i : ι} {keys : List CandleKey}
  {c : Ctx Write Lock} {d d' : Database}

theorem Saved.known {key : CandleKey} (h : Saved key c d) : (c.view d).Known key :=
  h.elim (fun h => Or.inr h.2) fun h => Or.inl h.2

theorem Saves.stable (hP : LocksRows P) (h : Saves keys c d) (he : P.Env i c d d') :
    Saves keys c d' := by
  refine ⟨h.adds, fun key hkey => ?_⟩
  rcases h.saved key hkey with ⟨hheld, hrow⟩ | ⟨hheld, hrow⟩
  · refine Or.inl ⟨hheld, ?_⟩
    rcases view_raw c key with huntouched | ⟨v, hv, -⟩
    · rwa [huntouched, hP.raw i _ _ _ _ he.1 key hheld, ← huntouched]
    · rwa [hv, ← hv d]
  · refine Or.inr ⟨hheld, ?_⟩
    rcases view_staging c key with huntouched | ⟨v, hv⟩
    · rwa [huntouched, hP.staged i _ _ _ _ he.1 key hheld, ← huntouched]
    · rwa [hv, ← hv d]

theorem Saves.hold (h : Saves keys c d) (l : Lock) : Saves keys (c.hold l) d := by
  refine ⟨fun w hw => (h.adds w hw).mono fun _ => List.mem_cons_of_mem _, fun key hkey => ?_⟩
  exact (h.saved key hkey).imp (fun h => ⟨List.mem_cons_of_mem _ h.1, h.2⟩) fun h =>
    ⟨List.mem_cons_of_mem _ h.1, h.2⟩

/-- A row that is there stays through a write that only adds. -/
theorem Adds.kept {held : List Lock} {w : Write} (hw : Adds held w) {key : CandleKey} {d : Database} :
    ((d.raw.lookup key).isSome → ((Store.apply w d).raw.lookup key).isSome) ∧
      ((d.staging.lookup key).isSome → ((Store.apply w d).staging.lookup key).isSome) := by
  have hlog : ∀ v ∈ [w], Adds held v := by
    intro v hv
    rwa [List.mem_singleton.mp hv]
  have hview := view_adds (c := { held := held, log := [w] }) hlog key d
  exact ⟨hview.1, hview.2.1⟩

theorem Saves.push (h : Saves keys c d) {w : Write} (hw : Adds c.held w) :
    Saves keys (c.push w) d := by
  refine ⟨fun v hv => ?_, fun key hkey => ?_⟩
  · rcases List.mem_append.mp hv with hv | hv
    · exact h.adds v hv
    · rw [List.mem_singleton.mp hv]
      exact hw
  · unfold Saved
    rw [Ctx.view_push]
    exact (h.saved key hkey).imp (fun h => ⟨h.1, hw.kept.1 h.2⟩) fun h => ⟨h.1, hw.kept.2 h.2⟩

theorem Saves.snoc {key : CandleKey} (h : Saves keys c d) (hkey : Saved key c d) :
    Saves (keys ++ [key]) c d := by
  refine ⟨h.adds, fun other hother => ?_⟩
  rcases List.mem_append.mp hother with hm | hm
  · exact h.saved other hm
  · rw [List.mem_singleton.mp hm]
    exact hkey

theorem Saves.guar (h : Saves keys c d) : (promotionProtocol ι).Guar i c d (c.view d) := by
  refine ⟨trivial, fun j _ held _ hapart _ => ⟨fun key hk => ?_, fun key hk => ?_⟩,
    fun _ _ h => h, fun key hk => ?_, fun key row hrow hgone => ?_⟩
  · exact (view_adds h.adds key d).2.2.1 (hapart _ hk)
  · exact (view_adds h.adds key d).2.2.2 (hapart _ hk)
  · rcases hk with hk | hk
    · exact Or.inl ((view_adds h.adds key d).2.1 hk)
    · exact Or.inr ((view_adds h.adds key d).1 hk)
  · have hstays := (view_adds h.adds key d).2.1 (by rw [hrow]; rfl)
    rw [hgone] at hstays
    cases hstays

theorem saves_release (c : Ctx Write Lock) (d : Database) : Saves [] c.release d :=
  ⟨fun _ hw => absurd hw List.not_mem_nil, fun _ hk => absurd hk List.not_mem_nil⟩

end

/-- The writes that are to no candle. -/
def NoCandle : Write → Prop
  | .putRaw _ _ _ => False
  | .deleteRaw _ => False
  | .putStaged _ _ => False
  | .deleteStaged _ => False
  | _ => True

theorem NoCandle.adds {w : Write} (h : NoCandle w) (held : List Lock) : Adds held w := by
  cases w <;> first | exact h.elim | trivial

theorem RangeWrite.noCandle {w : Write} (h : RangeWrite w) : NoCandle w := by
  cases w <;> first | exact h | trivial

theorem RevisionWrite.noCandle {w : Write} (h : RevisionWrite w) : NoCandle w := by
  cases w <;> first | exact h | trivial

section
open Protocol
variable {ι α : Type} {P : Protocol ι Database Lock} {O : (q : Question) → Answer q → Prop} {i : ι}
  {keys : List CandleKey} (hP : LocksRows P)
include hP

theorem saves_of_noCandle {p : Task α} (hp : p.Emits O NoCandle fun _ => True) (ho : p.Open) :
    P.Triple O i (fun _ _ => True) (Saves keys) p fun _ => Saves keys :=
  triple_of_open (fun _ _ _ h he => h.stable hP he) (fun _ _ l h => h.hold l)
    (fun _ _ _ h _ _ => ⟨h.adds, h.saved⟩) (fun _ _ _ => trivial)
    (fun _ hw c _ h => h.push (hw.adds c.held)) hp ho

/-- The key of a candle is saved once its row is locked and written, or found as it is. -/
theorem saves_upsertRawCandle (writer : Writer) (candle : Candle) :
    P.Triple O i (fun _ _ => True) (Saves keys) (upsertRawCandle writer candle)
      fun _ => Saves (keys ++ [candle.key]) := by
  cases hnew : candle.excluded with
  | none =>
    unfold upsertRawCandle
    rw [hnew]
    exact triple_raise fun _ _ _ => trivial
  | some new =>
    rw [upsertRawCandle_eq writer hnew]
    let Locked (c : Ctx Write Lock) (d : Database) : Prop :=
      Saves keys c d ∧ .rawCandle candle.key ∈ c.held
    refine Triple.seq (fun _ => Locked) (triple_acquire fun c d d' h he =>
      ⟨(h.stable hP he).hold _, List.mem_cons_self⟩) fun _ => ?_
    refine (triple_look fun c d d' h he => ⟨h.1.stable hP he, h.2⟩).bind fun s => ?_
    cases hacc : s.accepted candle.key new with
    | none =>
      refine triple_pure fun c d h => h.1.1.snoc (Or.inl ⟨h.1.2, ?_⟩)
      rw [← h.2]
      unfold Database.accepted at hacc
      cases hrow : s.raw.lookup candle.key with
      | none =>
        rw [hrow] at hacc
        cases hacc
      | some old => rfl
    | some row =>
      dsimp only [Option.elim]
      split
      · exact triple_raise fun _ _ _ => trivial
      · refine Triple.seq (fun _ => Saves (keys ++ [candle.key])) (triple_emit fun c d h => ?_)
          fun _ => ?_
        · have hlawful : Adds c.held (.putRaw writer candle.key row) := h.1.2
          refine (h.1.1.push hlawful).snoc (Or.inl ⟨h.1.2, ?_⟩)
          rw [Ctx.view_push, apply_raw, AList.lookup_insert]
          rfl
        · refine (saves_of_noCandle hP ?_ (open_appendRevision _ _)).bind fun _ =>
            triple_pure fun c d h => h
          exact (emits_appendRevision _ _).mono fun _ => RevisionWrite.noCandle

theorem saves_upsertStagedCandle (candle : Candle) :
    P.Triple O i (fun _ _ => True) (Saves keys) (upsertStagedCandle candle)
      fun _ => Saves (keys ++ [candle.key]) := by
  unfold upsertStagedCandle
  cases candle.excluded with
  | none => exact triple_raise fun _ _ _ => trivial
  | some new =>
    let Locked (c : Ctx Write Lock) (d : Database) : Prop :=
      Saves keys c d ∧ .stagedCandle candle.key ∈ c.held
    have hput : ∀ c d row, Locked c d →
        Saves (keys ++ [candle.key]) (c.push (.putStaged candle.key row)) d := by
      intro c d row h
      have hlawful : Adds c.held (.putStaged candle.key row) := h.2
      refine (h.1.push hlawful).snoc (Or.inr ⟨h.2, ?_⟩)
      rw [Ctx.view_push, apply_staging, AList.lookup_insert]
      rfl
    refine Triple.seq (fun _ => Locked) (triple_acquire fun c d d' h he =>
      ⟨(h.stable hP he).hold _, List.mem_cons_self⟩) fun _ => ?_
    refine (triple_look fun c d d' h he => ⟨h.1.stable hP he, h.2⟩).bind fun s => ?_
    cases hrow : s.staging.lookup candle.key with
    | none => exact triple_emit fun c d h => hput c d new h.1
    | some old =>
      dsimp only
      cases conflictUpdate old new with
      | none =>
        refine triple_pure fun c d h => h.1.1.snoc (Or.inr ⟨h.1.2, ?_⟩)
        rw [← h.2, hrow]
        rfl
      | some row => exact triple_emit fun c d h => hput c d row h.1

theorem saves_upsertRawCandles (writer : Writer) (candles : List Candle) :
    P.Triple O i (fun _ _ => True) (Saves keys) (upsertRawCandles writer candles)
      fun _ => Saves (keys ++ candles.map Candle.key) := by
  let I (done : List Candle) : Ctx Write Lock → Database → Prop :=
    Saves (keys ++ done.map Candle.key)
  have hloop : P.Triple O i (fun _ _ => True) (I []) (collect (upsertRawCandle writer) candles)
      fun _ => I ([] ++ candles) := by
    refine triple_collect (I := I) (fun done candle => ?_) [] candles
    refine (saves_upsertRawCandle hP writer candle).post fun _ c d h => ?_
    show Saves (keys ++ (done ++ [candle]).map Candle.key) c d
    rwa [List.map_append, ← List.append_assoc]
  refine Triple.bind (hloop.pre fun c d h => ?_) fun changed => ?_
  · show Saves (keys ++ []) c d
    rwa [List.append_nil]
  · have hrevisions : P.Triple O i (fun _ _ => True) (I ([] ++ candles))
        (forEach (fun r => appendRevision r.1 r.2) changed) fun _ => I ([] ++ candles) := by
      refine saves_of_noCandle hP (Emits.forEach fun r _ => ?_)
        (Open.forEach (fun r => open_appendRevision r.1 r.2) changed)
      exact (emits_appendRevision r.1 r.2).mono fun _ => RevisionWrite.noCandle
    exact hrevisions.bind fun _ => triple_pure fun c d h => h

theorem saves_upsertStagedCandles (candles : List Candle) :
    P.Triple O i (fun _ _ => True) (Saves keys) (forEach upsertStagedCandle candles)
      fun _ => Saves (keys ++ candles.map Candle.key) := by
  let I (done : List Candle) : Ctx Write Lock → Database → Prop :=
    Saves (keys ++ done.map Candle.key)
  have hloop : P.Triple O i (fun _ _ => True) (I []) (forEach upsertStagedCandle candles)
      fun _ => I ([] ++ candles) := by
    refine triple_forEach (I := I) (fun done candle => ?_) [] candles
    refine (saves_upsertStagedCandle hP candle).post fun _ c d h => ?_
    show Saves (keys ++ (done ++ [candle]).map Candle.key) c d
    rwa [List.map_append, ← List.append_assoc]
  refine hloop.pre fun c d h => ?_
  show Saves (keys ++ []) c d
  rwa [List.append_nil]

theorem saves_commitRawBatch (writer : Writer) (assetId : ℕ) (batch : List CandlePayload) :
    P.Triple O i (fun _ _ => True) (Saves keys) (commitRawBatchInTransaction writer assetId batch)
      fun _ => Saves keys := by
  unfold commitRawBatchInTransaction
  split
  · exact triple_pure fun c d h => h
  · refine (saves_of_noCandle hP (emits_now anyQuestion) open_now).bind fun now => ?_
    refine (saves_of_noCandle hP (emits_ofExcept _) (open_ofExcept _)).bind fun candles => ?_
    refine (saves_of_noCandle hP (emits_acquire _) (open_acquire _)).bind fun _ => ?_
    refine (saves_upsertRawCandles hP writer candles).bind fun _ => ?_
    refine (saves_of_noCandle hP (emits_ofExcept _) (open_ofExcept _)).bind fun blocks => ?_
    refine Triple.post (saves_of_noCandle hP ?_ (open_markVerifiedRawBlocks assetId blocks))
      fun _ c d h => ⟨h.adds, fun key hkey => h.saved key (List.mem_append_left _ hkey)⟩
    exact (emits_markVerifiedRawBlocks assetId blocks).mono fun _ => RangeWrite.noCandle

/-- Every candle of a batch is saved. -/
theorem saves_commitBatch (writer : Writer) (assetId : ℕ) (batch : List CandlePayload) :
    P.Triple O i (fun _ _ => True) (Saves keys) (commitBatchInTransaction writer assetId batch)
      fun _ c d => Saves keys c d ∧ ∀ p ∈ batch, ∀ key : CandleKey, key.assetId = assetId →
        key.timestamp = p.timestamp → Saved key c d := by
  unfold commitBatchInTransaction
  cases batch with
  | nil => exact triple_pure fun c d h => ⟨h, fun p hp => absurd hp List.not_mem_nil⟩
  | cons first rest =>
    refine (saves_of_noCandle hP (emits_now anyQuestion) open_now).bind fun now => ?_
    cases hprepare : prepareBatch assetId now (first :: rest) with
    | error e => exact triple_raise fun _ _ _ => trivial
    | ok candles =>
      simp only [Task.ofExcept_ok_bind]
      refine (saves_of_noCandle hP (emits_acquire _) (open_acquire _)).bind fun _ => ?_
      refine (saves_of_noCandle hP (emits_now anyQuestion) open_now).bind fun instant => ?_
      let live := candles.filter fun c => instant - 7 * day ≤ c.key.timestamp
      let historical := candles.filter fun c => c.key.timestamp < instant - 7 * day
      have hall : ∀ c d, Saves (keys ++ live.map Candle.key ++ historical.map Candle.key) c d →
          Saves keys c d ∧ ∀ p ∈ first :: rest, ∀ key : CandleKey, key.assetId = assetId →
            key.timestamp = p.timestamp → Saved key c d := by
        intro c d h
        refine ⟨⟨h.adds, fun key hkey => h.saved key (by simp [hkey])⟩, fun p hp key hasset htime => ?_⟩
        obtain ⟨candle, hcandle, hcandleAsset, hcandleTime⟩ := prepareBatch_mem hprepare hp
        have hkey : key = candle.key :=
          CandleKey.eq_of (hasset.trans hcandleAsset.symm) (htime.trans hcandleTime.symm)
        rw [hkey]
        refine h.saved _ ?_
        rcases lt_or_ge candle.key.timestamp (instant - 7 * day) with hold | hnew
        · have hmem : candle ∈ historical := List.mem_filter.mpr ⟨hcandle, decide_eq_true hold⟩
          exact List.mem_append_right _ (List.mem_map_of_mem hmem)
        · have hmem : candle ∈ live := List.mem_filter.mpr ⟨hcandle, decide_eq_true hnew⟩
          exact List.mem_append_left _ (List.mem_append_right _ (List.mem_map_of_mem hmem))
      have hstage : P.Triple O i (fun _ _ => True) (Saves (keys ++ live.map Candle.key))
          (forEach upsertStagedCandle historical) fun _ c d => Saves keys c d ∧
            ∀ p ∈ first :: rest, ∀ key : CandleKey, key.assetId = assetId →
              key.timestamp = p.timestamp → Saved key c d :=
        (saves_upsertStagedCandles hP historical).post fun _ => hall
      cases hlive : live with
      | nil =>
        rw [hlive, List.map_nil, List.append_nil] at hstage
        simp only [show (candles.filter fun c => instant - 7 * day ≤ c.key.timestamp) = [] from hlive]
        exact hstage
      | cons l ls =>
        simp only [show (candles.filter fun c => instant - 7 * day ≤ c.key.timestamp) = l :: ls from
          hlive]
        refine (saves_upsertRawCandles hP writer (l :: ls)).bind fun _ => ?_
        refine (saves_of_noCandle hP (emits_ofExcept _) (open_ofExcept _)).bind fun blocks => ?_
        refine Triple.bind (saves_of_noCandle hP ?_ (open_markVerifiedRawBlocks assetId blocks))
          fun _ => hlive ▸ hstage
        exact (emits_markVerifiedRawBlocks assetId blocks).mono fun _ => RangeWrite.noCandle

end

/-! ### Merge pages -/

/-- The staged rows of a page are locked and as they were read; the log is to no other staged
row. -/
structure Page (rows : List (CandleKey × StoredCandle)) (c : Ctx Write Lock) (d : Database) :
    Prop where
  locked : ∀ r ∈ rows, .stagedCandle r.1 ∈ c.held ∧ d.staging.lookup r.1 = some r.2
  others : ∀ key, (∀ r ∈ rows, r.1 ≠ key) → ∀ d, (c.view d).staging.lookup key = d.staging.lookup key

/-- The writes to no staged row but those of a page. -/
def PageWrite (rows : List (CandleKey × StoredCandle)) : Write → Prop
  | .putStaged _ _ => False
  | .deleteStaged key => ∃ r ∈ rows, r.1 = key
  | _ => True

section
variable {ι : Type} {P : Protocol ι Database Lock} {i : ι}
  {rows : List (CandleKey × StoredCandle)} {offered : List (CandleKey × Content)}
  {c : Ctx Write Lock} {d d' : Database}

theorem Page.stable (hP : LocksRows P) (h : Page rows c d) (he : P.Env i c d d') :
    Page rows c d' := by
  refine ⟨fun r hr => ⟨(h.locked r hr).1, ?_⟩, h.others⟩
  rw [hP.staged i _ _ _ _ he.1 r.1 (h.locked r hr).1]
  exact (h.locked r hr).2

theorem Page.hold (h : Page rows c d) (l : Lock) : Page rows (c.hold l) d :=
  ⟨fun r hr => ⟨List.mem_cons_of_mem _ (h.locked r hr).1, (h.locked r hr).2⟩, h.others⟩

theorem Page.push (h : Page rows c d) {w : Write} (hw : PageWrite rows w) :
    Page rows (c.push w) d := by
  refine ⟨h.locked, fun key hkey d => ?_⟩
  rw [Ctx.view_push, apply_staging, ← h.others key hkey d]
  cases w with
  | putStaged other row => exact hw.elim
  | deleteStaged other =>
    obtain ⟨r, hr, rfl⟩ := hw
    exact AList.lookup_erase_ne (Ne.symm (hkey r hr))
  | _ => rfl

/-- A page whose rows were all offered may commit their deletion. -/
theorem Page.guar (hpage : Page rows c d) (hoffered : Upserted offered c d)
    (hmatches : Matches rows offered) (hnodup : (rows.map (·.1)).Nodup) :
    (promotionProtocol ι).Guar i c d (c.view d) := by
  have hcontent : ∀ r ∈ rows, ∃ now new, Promotes now r.2 new ∧
      (c.view d).content r.1 = some (Content.offer (d.content r.1) new) := by
    intro r hr
    obtain ⟨now, new, hpromotes, honce⟩ := hmatches.offersFor hnodup hr
    refine ⟨now, new, hpromotes, ?_⟩
    rw [hoffered.content, honce]
    rfl
  have hraw : ∀ key, (d.raw.lookup key).isSome → ((c.view d).raw.lookup key).isSome := by
    intro key hkey
    have hsome : ∀ (news : List Content) (old : Content),
        (Content.offers (some old) news).isSome := by
      intro news
      induction news with
      | nil => exact fun old => rfl
      | cons new news ih => exact fun old => ih _
    obtain ⟨row, hrow⟩ := Option.isSome_iff_exists.mp hkey
    have hafter := hsome (offersFor key offered) row.content
    rw [← show d.content key = some row.content by simp [Database.content, hrow],
      ← hoffered.content key] at hafter
    simpa [Database.content] using hafter
  refine ⟨trivial, fun j _ held _ hapart _ => ⟨fun key hk => ?_, fun key hk => ?_⟩,
    fun _ _ h => h, fun key hk => ?_, fun key row hrow hgone => ?_⟩
  · exact hoffered.untouched key (fun o ho he => hapart _ hk (he ▸ hoffered.held o ho)) d
  · exact hpage.others key (fun r hr he => hapart _ hk (he ▸ (hpage.locked r hr).1)) d
  · rcases hk with hk | hk
    · by_cases hin : ∃ r ∈ rows, r.1 = key
      · obtain ⟨r, hr, rfl⟩ := hin
        obtain ⟨now, new, -, hnew⟩ := hcontent r hr
        refine Or.inr ?_
        have hsome : ((c.view d).content r.1).isSome := by rw [hnew]; rfl
        simpa [Database.content] using hsome
      · refine Or.inl ?_
        rwa [hpage.others key fun r hr he => hin ⟨r, hr, he⟩]
    · exact Or.inr (hraw key hk)
  · by_cases hin : ∃ r ∈ rows, r.1 = key
    · obtain ⟨r, hr, rfl⟩ := hin
      rw [(hpage.locked r hr).2] at hrow
      cases hrow
      exact hcontent r hr
    · rw [hpage.others key fun r hr he => hin ⟨r, hr, he⟩, hrow] at hgone
      cases hgone

end

theorem RawBatchWrite.page {writer : Writer} {rows : List (CandleKey × StoredCandle)} {w : Write}
    (h : RawBatchWrite writer w) : PageWrite rows w := by
  cases w <;> first | exact h | trivial

theorem stagedKeys_nodup (d : Database) (start stop : ℤ) : (d.stagedKeys start stop).Nodup :=
  (List.perm_insertionSort _ _).nodup_iff.mpr (d.staging.keys_nodup.filter _)

section
open Protocol
variable {ι α : Type} {P : Protocol ι Database Lock} {O : (q : Question) → Answer q → Prop} {i : ι}
  {rows : List (CandleKey × StoredCandle)} {offered : List (CandleKey × Content)}
  (hP : LocksRows P)
include hP

theorem page_of_open {p : Task α} (hp : p.Emits O (PageWrite rows) fun _ => True)
    (ho : p.Open) : P.Triple O i (fun _ _ => True) (Page rows) p fun _ => Page rows :=
  triple_of_open (fun _ _ _ h he => h.stable hP he) (fun _ _ l h => h.hold l)
    (fun _ _ _ h _ _ => ⟨h.locked, h.others⟩) (fun _ _ _ => trivial)
    (fun _ hw _ _ h => h.push hw) hp ho

/-- The rows of one asset are offered, each once. -/
theorem promoteGroup_offers (jobId : ℕ) (group : List (CandleKey × StoredCandle)) :
    P.Triple O i (fun _ _ => True) (Upserted offered) (promoteGroup jobId group) fun _ c d =>
      ∃ more, Matches group more ∧ Upserted (offered ++ more) c d := by
  cases group with
  | nil =>
    refine triple_pure fun c d h => ⟨[], .nil, ?_⟩
    rwa [List.append_nil]
  | cons row rest =>
    refine (commitRawBatch_offers hP (.mergeJob jobId) row.1.assetId _).post fun _ c d h => ?_
    obtain ⟨now, candles, hprepare, hall, hoffered⟩ := h
    exact ⟨_, prepareBatch_matches hprepare hall, hoffered⟩

theorem promoteGroups_offer (jobId : ℕ) (groups : List (List (CandleKey × StoredCandle))) :
    P.Triple O i (fun _ _ => True) (Upserted []) (forEach (promoteGroup jobId) groups) fun _ c d =>
      ∃ offered, Matches groups.flatten offered ∧ Upserted offered c d := by
  let I (done : List (List (CandleKey × StoredCandle))) (c : Ctx Write Lock) (d : Database) : Prop :=
    ∃ offered, Matches done.flatten offered ∧ Upserted offered c d
  have hloop : P.Triple O i (fun _ _ => True) (I []) (forEach (promoteGroup jobId) groups)
      fun _ => I ([] ++ groups) := by
    refine triple_forEach (I := I) (fun done group => Triple.exists fun offered =>
      Triple.fact fun hdone => ?_) [] groups
    refine (promoteGroup_offers hP jobId group).post fun _ c d h => ?_
    obtain ⟨more, hmore, hoffered⟩ := h
    refine ⟨offered ++ more, ?_, hoffered⟩
    rw [List.flatten_append, List.flatten_singleton]
    exact List.rel_append hdone hmore
  exact hloop.pre fun c d h => ⟨[], .nil, h⟩

end

/-- Nothing uncommitted. -/
def Unwritten (c : Ctx Write Lock) (_ : Database) : Prop := c.log = []

/-- The session sees none of the rows any more. -/
def Deleted (rows : List (CandleKey × StoredCandle)) (c : Ctx Write Lock) (_ : Database) : Prop :=
  ∀ r ∈ rows, ∀ d, (c.view d).staging.lookup r.1 = none

/-- A page that may be committed. -/
def Promoted (c : Ctx Write Lock) (d : Database) : Prop :=
  ∃ rows offered, (rows.map (·.1)).Nodup ∧ Matches rows offered ∧ Page rows c d ∧
    Upserted offered c d ∧ Deleted rows c d

/-- A page that was selected: its rows are locked, nothing is written. -/
def Selected (rows : List (CandleKey × StoredCandle)) (c : Ctx Write Lock) (d : Database) : Prop :=
  c.log = [] ∧ ∀ r ∈ rows, .stagedCandle r.1 ∈ c.held ∧ d.staging.lookup r.1 = some r.2

theorem Selected.stable {ι : Type} {P : Protocol ι Database Lock} {i : ι} (hP : LocksRows P)
    {rows : List (CandleKey × StoredCandle)} {c : Ctx Write Lock} {d d' : Database}
    (h : Selected rows c d) (he : P.Env i c d d') : Selected rows c d' := by
  refine ⟨h.1, fun r hr => ⟨(h.2 r hr).1, ?_⟩⟩
  rw [hP.staged i _ _ _ _ he.1 r.1 (h.2 r hr).1]
  exact (h.2 r hr).2

theorem Selected.hold {rows : List (CandleKey × StoredCandle)} {c : Ctx Write Lock} {d : Database}
    (h : Selected rows c d) (l : Lock) : Selected rows (c.hold l) d :=
  ⟨h.1, fun r hr => ⟨List.mem_cons_of_mem _ (h.2 r hr).1, (h.2 r hr).2⟩⟩

theorem Selected.page {rows : List (CandleKey × StoredCandle)} {c : Ctx Write Lock} {d : Database}
    (h : Selected rows c d) : Page rows c d ∧ Upserted [] c d := by
  refine ⟨⟨h.2, fun key _ d => ?_⟩, Upserted.start fun w hw => ?_⟩
  · rw [Ctx.view, h.1]
    rfl
  · rw [h.1] at hw
    cases hw

section
open Protocol
variable {ι α : Type} {P : Protocol ι Database Lock} {O : (q : Question) → Answer q → Prop} {i : ι}

theorem unwritten_of_open {J : Ctx Write Lock → Database → Prop}
    (hJ : ∀ c d, Unwritten c d → J c d) {p : Task α}
    (hp : p.Emits O (fun _ => False) fun _ => True) (ho : p.Open) :
    P.Triple O i J Unwritten p fun _ => Unwritten :=
  triple_of_open (fun _ _ _ h _ => h) (fun _ _ _ h => h) (fun _ _ _ h _ _ => h) hJ
    (fun _ hw _ _ _ => hw.elim) hp ho

theorem selectPage (hP : LocksRows P) (pageSize : ℕ) {keys : List CandleKey} (hkeys : keys.Nodup) :
    P.Triple O i (fun _ _ => True) Unwritten
      (Task.lockRowsSkip .stagedCandle (fun d k => d.staging.lookup k) pageSize keys)
      fun found c d => (found.1.map (·.1)).Nodup ∧ Selected found.1 c d := by
  have hskip : P.Triple O i (fun _ _ => True) (Selected [])
      (Task.lockRowsSkip .stagedCandle (fun d k => d.staging.lookup k) pageSize keys)
      fun found c d => (found.1.map (·.1)).Sublist keys ∧ Selected ([] ++ found.1) c d := by
    refine triple_lockRowsSkip (I := Selected) (fun _ _ _ _ h he => h.stable hP he)
      (fun _ l _ _ h => h.hold l) (fun rows k c d r h hk hr => ⟨h.1, fun x hx => ?_⟩) pageSize keys []
    rcases List.mem_append.mp hx with hx | hx
    · exact h.2 x hx
    · rw [List.mem_singleton.mp hx]
      rw [Ctx.view, h.1] at hr
      exact ⟨hk, hr⟩
  refine hskip.conseq (fun c d h => ⟨h, fun r hr => absurd hr List.not_mem_nil⟩) fun found c d h => ?_
  exact ⟨h.1.nodup hkeys, h.2⟩

/-- The offers and the deletions of a selected page. -/
theorem promotePage (hP : LocksRows P) (jobId : ℕ) {rows : List (CandleKey × StoredCandle)}
    (hnodup : (rows.map (·.1)).Nodup) :
    P.Triple O i (fun _ _ => True) (Selected rows) (do
      forEach (promoteGroup jobId) (rows.splitBy fun r s => r.1.assetId = s.1.assetId)
      forEach (fun row => emit (.deleteStaged row.1)) rows
      pure rows.length : Task ℕ) fun _ => Promoted := by
  have hgroups : P.Triple O i (fun _ _ => True) (Page rows)
      (forEach (promoteGroup jobId) (rows.splitBy fun r s => r.1.assetId = s.1.assetId))
      fun _ => Page rows := by
    refine page_of_open hP (Emits.forEach fun group _ => ?_) (Open.forEach (fun group => ?_) _)
    · cases group with
      | nil => trivial
      | cons row rest =>
        exact (emits_commitRawBatchInTransaction anyQuestion _ _).mono fun _ => RawBatchWrite.page
    · cases group with
      | nil => trivial
      | cons row rest => exact open_commitRawBatchInTransaction _ _
  have hoffers := promoteGroups_offer (O := O) (i := i) hP jobId
    (rows.splitBy fun r s => r.1.assetId = s.1.assetId)
  rw [List.flatten_splitBy] at hoffers
  refine ((hgroups.and hoffers).pre fun c d h => h.page).bind fun _ => ?_
  have hdelete : P.Triple O i (fun _ _ => True)
      (fun c d => ∃ offered, Matches rows offered ∧ Page rows c d ∧ Upserted offered c d)
      (do
        forEach (fun row => emit (.deleteStaged row.1)) rows
        pure rows.length : Task ℕ) fun _ => Promoted := by
    refine Triple.exists fun offered => Triple.fact fun hmatches => ?_
    have hpages : P.Triple O i (fun _ _ => True) (Page rows)
        (forEach (fun row => emit (.deleteStaged row.1)) rows : Task Unit) fun _ => Page rows :=
      page_of_open hP (Emits.forEach fun row hrow => (emits_emit _).mpr ⟨row, hrow, rfl⟩)
        (Open.forEach (fun row => open_emit _) rows)
    have hupserts : P.Triple O i (fun _ _ => True) (Upserted offered)
        (forEach (fun row => emit (.deleteStaged row.1)) rows : Task Unit)
        fun _ => Upserted offered :=
      triple_upserted (A := fun _ => True) hP (Emits.forEach fun row _ =>
        (emits_emit _).mpr (show NoRaw (.deleteStaged row.1) from trivial)) (fun _ h => h)
        (Open.forEach (fun row => open_emit _) rows)
    have hgone : P.Triple O i (fun _ _ => True) (Deleted [])
        (forEach (fun row => emit (.deleteStaged row.1)) rows : Task Unit)
        fun _ => Deleted ([] ++ rows) := by
      refine triple_forEach (I := Deleted) (fun done row => triple_emit fun c d h r hr d => ?_) [] rows
      rw [Ctx.view_push, apply_staging]
      by_cases hk : r.1 = row.1
      · rw [hk]
        exact AList.lookup_erase _ _
      · rcases List.mem_append.mp hr with hr | hr
        · exact (AList.lookup_erase_ne hk).trans (h r hr d)
        · rw [List.mem_singleton.mp hr] at hk
          exact absurd rfl hk
    have hall := ((hpages.and hupserts).and hgone).pre (fun c d h =>
      (⟨h, fun r hr => absurd hr List.not_mem_nil⟩ :
        (Page rows c d ∧ Upserted offered c d) ∧ Deleted [] c d))
    exact hall.bind fun _ => triple_pure fun c d h =>
      ⟨rows, offered, hnodup, hmatches, h.1.1, h.1.2, h.2⟩
  refine hdelete.pre fun c d h => ?_
  obtain ⟨hpage, offered, hmatches, hoffered⟩ := h
  exact ⟨offered, hmatches, hpage, hoffered⟩

/-- A transaction whose body ends in a state that may be committed, whatever the others did; `B` is
what the committed database satisfies between two transactions. -/
theorem unwritten_inTransaction {B : Database → Prop}
    (hB : ∀ (c : Ctx Write Lock) d d', B d → P.Env i c d d' → B d') {body : Task α}
    (Done : Ctx Write Lock → Database → Prop) (ho : body.Open)
    (hbody : P.Triple O i (fun _ _ => True) Unwritten body fun _ => Done)
    (hdone : ∀ c d d', Done c d → P.Env i c d d' → B d' →
      P.Guar i c d' (c.view d') ∧ B (c.view d')) :
    P.Keeps O i (fun c d => Unwritten c d ∧ B d) (Task.inTransaction body) := by
  let J (c : Ctx Write Lock) (d : Database) : Prop := Unwritten c d ∧ B d
  have hconnection : P.Keeps O i J Task.connection :=
    triple_of_open (S := fun _ => False) (fun _ _ _ h he => ⟨h.1, hB _ _ _ h.2 he⟩)
      (fun _ _ _ h => h) (fun _ _ _ h _ _ => h) (fun _ _ h => h) (fun _ hw _ _ _ => hw.elim)
      (emits_connection anyQuestion) open_connection
  have hboth : P.Triple O i (fun _ => B) J body fun _ c d => Done c d ∧ B d := by
    intro c d h
    refine wp_mono (wp_and (hbody c d h.1) (triple_of_db hB ho c d h.2)) fun r c d hr => ?_
    cases r with
    | ok a => exact hr
    | error e => exact hr.2
  have htransaction : P.Keeps O i J (transaction body) :=
    Triple.transaction (fun _ => B) (fun _ c d => Done c d ∧ B d) hboth
      (fun c d d' h he => ⟨rfl, hB c d d' h he⟩) fun _ c d d' h he => by
        have hd := hdone c d d' h.1 he (hB c d d' h.2 he)
        exact ⟨hd.1, rfl, hd.2⟩
  exact hconnection.bind fun _ => htransaction.bind fun _ => hconnection.bind fun _ =>
    triple_pure fun _ _ h => h

/-- The rule of a page, for what the committed database satisfies between two pages. -/
theorem mergeOnePage_keeps (hP : LocksRows P) {B : Database → Prop}
    (hB : ∀ (c : Ctx Write Lock) d d', B d → P.Env i c d d' → B d')
    (hcommit : ∀ c d, Promoted c d → B d → P.Guar i c d (c.view d) ∧ B (c.view d))
    (dayBucket : ℤ) (pageSize jobId workerId leaseToken : ℕ) :
    P.Keeps O i (fun c d => Unwritten c d ∧ B d)
      (mergeOnePage dayBucket pageSize jobId workerId leaseToken) := by
  have hlease : P.Keeps O i (fun c d => Unwritten c d ∧ B d) Task.ownershipLost :=
    triple_of_open (S := fun _ => False) (fun _ _ _ h he => ⟨h.1, hB _ _ _ h.2 he⟩)
      (fun _ _ _ h => h) (fun _ _ _ h _ _ => h) (fun _ _ h => h) (fun _ hw _ _ _ => hw.elim)
      (emits_ownershipLost anyQuestion) open_ownershipLost
  refine hlease.bind fun lost => ?_
  cases lost with
  | true => exact triple_raise fun _ _ h => h
  | false =>
    refine unwritten_inTransaction hB Promoted ?_ ?_ fun c d d' h he hd => ?_
    · refine (mergeJobs.open_assertOwnedLocked _ _ _).bind fun _ => open_view.bind fun d => ?_
      refine (open_lockRowsSkip _ _ _ _).bind fun found => ?_
      obtain ⟨rows, complete⟩ := found
      dsimp only
      split
      · trivial
      · refine open_ownershipLost.bind fun lost => ?_
        cases lost with
        | true => trivial
        | false =>
          refine (Open.forEach (fun group => ?_) _).bind fun _ =>
            (Open.forEach (fun row => open_emit _) rows).bind fun _ => trivial
          cases group with
          | nil => trivial
          | cons row rest => exact open_commitRawBatchInTransaction _ _
    · refine (unwritten_of_open (fun _ _ _ => trivial) (mergeJobs.emits_assertOwnedLocked
        anyQuestion _ _ _) (mergeJobs.open_assertOwnedLocked _ _ _)).bind fun _ => ?_
      refine (unwritten_of_open (fun _ _ _ => trivial) emits_view open_view).bind fun d => ?_
      refine (selectPage hP pageSize (stagedKeys_nodup _ _ _)).bind fun found => ?_
      obtain ⟨rows, complete⟩ := found
      refine Triple.fact fun hnodup => ?_
      dsimp only
      by_cases hempty : rows.isEmpty = true
      · rw [if_pos hempty, List.isEmpty_iff.mp hempty]
        exact triple_pure fun c d h => ⟨[], [], List.nodup_nil, .nil, h.page.1, h.page.2,
          fun r hr => absurd hr List.not_mem_nil⟩
      · rw [if_neg hempty]
        have hlost : P.Triple O i (fun _ _ => True) (Selected rows) Task.ownershipLost
            fun _ => Selected rows :=
          triple_of_open (S := fun _ => False) (fun _ _ _ h he => h.stable hP he)
            (fun _ _ l h => h.hold l) (fun _ _ _ h _ _ => ⟨h.1, h.2⟩) (fun _ _ _ => trivial)
            (fun _ hw _ _ _ => hw.elim) (emits_ownershipLost anyQuestion) open_ownershipLost
        refine hlost.bind fun lost => ?_
        cases lost with
        | true => exact triple_raise fun _ _ _ => trivial
        | false => exact promotePage hP jobId hnodup
    · obtain ⟨rows, offered, hnodup, hmatches, hpage, hoffered, hgone⟩ := h
      exact hcommit c d' ⟨rows, offered, hnodup, hmatches, hpage.stable hP he,
        hoffered.stable hP he, hgone⟩ hd

theorem Unwritten.saves {c : Ctx Write Lock} {d : Database} (h : Unwritten c d) : Saves [] c d := by
  refine ⟨fun w hw => ?_, fun key hkey => absurd hkey List.not_mem_nil⟩
  rw [show c.log = [] from h] at hw
  cases hw

end

/-! ### The system -/

/-- What a transaction may do to candles; `other` stands for the statements that write none. -/
inductive PromotionStatement where
  | commitBatch (writer : Writer) (assetId : ℕ) (batch : List CandlePayload)
  | commitRawBatch (writer : Writer) (assetId : ℕ) (batch : List CandlePayload)
  | other (statement : Task Unit)
    (writes : statement.Emits (fun _ _ => True) NoCandle fun _ => True) (isOpen : statement.Open)

def PromotionStatement.task : PromotionStatement → Task Unit
  | commitBatch writer assetId batch => commitBatchInTransaction writer assetId batch
  | commitRawBatch writer assetId batch => commitRawBatchInTransaction writer assetId batch
  | other statement _ _ => statement

/-- The programs of the sessions: transactions of any statements, and merge pages of any size. -/
inductive PromotionProgram : Task Unit → Prop
  | transaction (statements : List PromotionStatement) :
      PromotionProgram (Task.inTransaction (forEach PromotionStatement.task statements))
  | mergePage (dayBucket : ℤ) (pageSize jobId workerId leaseToken : ℕ) :
      PromotionProgram do
        let _ ← mergeOnePage dayBucket pageSize jobId workerId leaseToken
        pure ()

/-- Any number of sessions over any store, whatever the surroundings answer. -/
def promotionSystem (ι : Type) : System ι Database Write Lock Answer Failure where
  oracle _ _ := True
  programs _ := PromotionProgram
  init _ := True

section
open Protocol
variable {ι : Type}

theorem saves_statement (i : ι) (statement : PromotionStatement) :
    (promotionProtocol ι).Triple (fun _ _ => True) i (fun _ _ => True) (Saves []) statement.task
      fun _ => Saves [] := by
  have hP := promotion_locksRows ι
  cases statement with
  | commitBatch writer assetId batch =>
    exact (saves_commitBatch hP writer assetId batch).post fun _ _ _ h => h.1
  | commitRawBatch writer assetId batch => exact saves_commitRawBatch hP writer assetId batch
  | other statement writes isOpen => exact saves_of_noCandle hP writes isOpen

theorem open_statement (statement : PromotionStatement) : statement.task.Open := by
  cases statement with
  | commitBatch writer assetId batch => exact open_commitBatchInTransaction assetId batch
  | commitRawBatch writer assetId batch => exact open_commitRawBatchInTransaction assetId batch
  | other statement writes isOpen => exact isOpen

theorem promotion_program (i : ι) {p : Task Unit} (hp : PromotionProgram p) :
    (promotionProtocol ι).Keeps (fun _ _ => True) i (fun c d => Unwritten c d ∧ True) p := by
  have hP := promotion_locksRows ι
  cases hp with
  | transaction statements =>
    refine unwritten_inTransaction (fun _ _ _ _ _ => trivial) (Saves [])
      (Open.forEach open_statement statements) ?_ fun c d d' h he _ =>
        ⟨(h.stable hP he).guar, trivial⟩
    refine Triple.pre ?_ fun c d h => h.saves
    exact triple_forEach (I := fun _ => Saves []) (fun _ s => saves_statement i s) [] statements
  | mergePage dayBucket pageSize jobId workerId leaseToken =>
    refine (mergeOnePage_keeps hP (fun _ _ _ _ _ => trivial) (fun c d h _ => ?_) _ _ _ _ _).bind
      fun _ => triple_pure fun _ _ h => h
    obtain ⟨rows, offered, hnodup, hmatches, hpage, hoffered, -⟩ := h
    exact ⟨hpage.guar hoffered hmatches hnodup, trivial⟩

theorem promotionSystem_ok [DecidableEq ι] :
    (promotionSystem ι).Invariant (Ok (promotionSystem ι) (promotionProtocol ι)) := by
  have hsound : Sound (promotionSystem ι) (promotionProtocol ι) := fun i p d hp _ =>
    (promotion_program i hp).rest ⟨rfl, trivial⟩
  exact sound hsound fun d _ => ⟨trivial, fun _ => trivial⟩

/-- The candles of a batch are known when its transaction commits; a known key stays known in every
later state; a staged row goes only in a commit that offers it to its key. -/
theorem promotion_loses_no_candle [DecidableEq ι] :
    (∀ (i : ι) (writer : Writer) (assetId : ℕ) (batch : List CandlePayload),
      (promotionProtocol ι).Triple (fun _ _ => True) i (fun _ _ => True) Unwritten
        (commitBatchInTransaction writer assetId batch) fun _ c d =>
          ∀ p ∈ batch, ∀ key : CandleKey, key.assetId = assetId → key.timestamp = p.timestamp →
            ∀ d', (promotionProtocol ι).Env i c d d' → (c.view d').Known key) ∧
    (promotionSystem ι).Invariant fun w =>
      (∀ w', (promotionSystem ι).Leads w w' → ∀ key, w.db.Known key → w'.db.Known key) ∧
      ∀ l w', (promotionSystem ι).Step w l w' → ∀ key row, w.db.staging.lookup key = some row →
        w'.db.staging.lookup key = none → ∃ now new, Promotes now row new ∧
          w'.db.content key = some (Content.offer (w.db.content key) new) := by
  have hP := promotion_locksRows ι
  constructor
  · intro i writer assetId batch
    refine (saves_commitBatch hP writer assetId batch).conseq (fun c d h => h.saves) ?_
    intro _ c d h p hp key hasset htime d' he
    have hsaves : Saves [key] c d := h.1.snoc (h.2 p hp key hasset htime)
    exact ((hsaves.stable hP he).saved key List.mem_cons_self).known
  · intro w hw
    refine ⟨fun w' hlater => ?_, fun l w' hs key row hrow hgone => ?_⟩
    · induction hlater with
      | refl => exact fun key h => h
      | @tail u v hbefore hs ih =>
        obtain ⟨l, hs⟩ := hs
        have hok := promotionSystem_ok u (hw.leads hbefore)
        rcases hok.commit_step hs with hdb | ⟨i, held, owned, _, hcommit⟩
        · rw [hdb]
          exact ih
        · exact fun key hkey => hcommit.1 key (ih key hkey)
    · rcases (promotionSystem_ok w hw).commit_step hs with hdb | ⟨i, held, owned, _, hcommit⟩
      · rw [hdb, hrow] at hgone
        cases hgone
      · exact hcommit.2 key row hrow hgone

end
end Quantive.Candles
