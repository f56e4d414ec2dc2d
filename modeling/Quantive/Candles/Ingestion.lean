import Mathlib.Data.List.Sort
import Quantive.Candles.Statements

/-!
# Ingestion

`services/ingestion.py` with the triggers of migrations 014, 017 and 018: validation of a
batch, the upserts of raw and staged candles, the verified merge of `sync_ranges`, and the
detection of missing intervals.
-/

namespace Quantive.Candles
open Quantive.ReadCommitted Prog

/-! ### Validation -/

/-- A candle as a caller hands it over: the keys of the dict that are present. -/
structure CandlePayload where
  assetId : Option ℕ := none
  timestamp : ℤ
  «open» : Option ℚ := none
  high : Option ℚ := none
  low : Option ℚ := none
  close : Option ℚ := none
  volume : Option ℚ := none
  source : Option String := none
  sourceEventTime : Option ℤ := none
  sourceReceivedAt : Option ℤ := none

/-- A validated candle. -/
structure Candle where
  key : CandleKey
  values : Option Ohlcv
  source : String
  sourceEventTime : Option ℤ
  sourceReceivedAt : Option ℤ

/-- The characters that `str.strip` removes. -/
def isSpace (c : Char) : Bool :=
  let n := c.toNat
  (9 ≤ n && n ≤ 13) || (28 ≤ n && n ≤ 32) || n = 0x85 || n = 0xA0 || n = 0x1680 ||
    (0x2000 ≤ n && n ≤ 0x200A) || n = 0x2028 || n = 0x2029 || n = 0x202F || n = 0x205F || n = 0x3000

def strip (s : List Char) : List Char := ((s.dropWhile isSpace).reverse.dropWhile isSpace).reverse

/-- The tolerance of the payload checks, 1e-9. -/
def epsilon : ℚ := 1 / 1000000000

/-- The checks of `_validate_candle_payload` on five finite values, `ingestion.py:496-517`. -/
def checkOhlcv (v : Ohlcv) : Except Failure Unit := do
  if v.open ≤ 0 ∨ v.high ≤ 0 ∨ v.low ≤ 0 ∨ v.close ≤ 0 then
    throw (.payloadCorruption "Candle prices must be strictly positive")
  if v.volume < 0 then
    throw (.payloadCorruption "Candle volume cannot be negative")
  if v.high < v.low - epsilon then
    throw (.payloadCorruption "Candle high cannot be lower than low")
  if ¬ (v.low - epsilon ≤ v.open ∧ v.open ≤ v.high + epsilon) then
    throw (.payloadCorruption "Candle open must be within [low, high]")
  if ¬ (v.low - epsilon ≤ v.close ∧ v.close ≤ v.high + epsilon) then
    throw (.payloadCorruption "Candle close must be within [low, high]")

/-- The OHLCV fields of a payload: all of them, none of them, or an error. -/
def payloadValues (p : CandlePayload) : Except Failure (Option Ohlcv) :=
  match p.open, p.high, p.low, p.close, p.volume with
  | none, none, none, none, none => .ok none
  | some o, some h, some l, some c, some v => do
    checkOhlcv ⟨o, h, l, c, v⟩
    pure (some ⟨o, h, l, c, v⟩)
  | _, _, _, _, _ => .error (.payloadCorruption "Candle payload must contain complete OHLCV fields")

/-- `source.strip().lower()` when it is 1 to 64 characters long. -/
def payloadSource (source : Option String) : Except Failure String :=
  let stripped := strip (source.getD "unknown").toList
  if stripped = [] ∨ 64 < stripped.length then
    .error (.payloadCorruption
      "Candle source must be a non-empty string of at most 64 characters")
  else .ok (String.ofList (stripped.map Char.toLower))

/-- `_validate_candle_payload`, `ingestion.py:427-517`. -/
def validateCandlePayload (assetId : ℕ) (now : ℤ) (p : CandlePayload) : Except Failure Candle := do
  if h : p.timestamp % minute = 0 then
    if p.assetId.getD assetId ≠ assetId then
      throw (.payloadCorruption "Candle asset_id does not match batch asset_id")
    let source ← payloadSource p.source
    let values ← payloadValues p
    pure ⟨⟨assetId, p.timestamp, h⟩, values, source, p.sourceEventTime,
      some (p.sourceReceivedAt.getD now)⟩
  else
    throw (.payloadCorruption "Raw 1m candle timestamps must align exactly to a UTC minute")

/-- The loop of `_contiguous_blocks`. -/
def blocksFrom (start previous : ℤ) : List ℤ → Except Failure (List (ℤ × ℤ))
  | [] => .ok [(start, previous)]
  | current :: rest =>
    if current ≤ previous then
      .error (.payloadCorruption
        "Payload corruption detected: candle timestamps must be strictly increasing.")
    else if current - previous ≠ minute then do
      let blocks ← blocksFrom current current rest
      pure ((start, previous) :: blocks)
    else blocksFrom start current rest

/-- `_contiguous_blocks`, `ingestion.py:519-542`, of the timestamps of a batch. -/
def contiguousBlocks : List ℤ → Except Failure (List (ℤ × ℤ))
  | [] => .ok []
  | t :: rest => blocksFrom t t rest

/-- `_prepare_batch`: the validated candles. -/
def prepareBatch (assetId : ℕ) (now : ℤ) (batch : List CandlePayload) :
    Except Failure (List Candle) := do
  let candles ← batch.mapM (validateCandlePayload assetId now)
  let _ ← contiguousBlocks (candles.map (·.key.timestamp))
  pure candles

/-! ### Upserts -/

/-- `_source_priority`. -/
def sourcePriority (source : String) : ℕ :=
  if source = "binance_rest" then 30
  else if source = "binance_ws" then 20
  else if source = "legacy" then 0
  else 10

/-- `_ohlcv_changed`. -/
def ohlcvChanged (target excluded : StoredCandle) : Bool := target.values ≠ excluded.values

/-- The row a candle proposes; `none` violates NOT NULL or `ck_raw_1m_candles_ohlcv_valid`. -/
def Candle.excluded (c : Candle) : Option StoredCandle :=
  match c.values with
  | none => none
  | some v =>
    if h : v.Valid then
      some { values := v, source := c.source, sourceEventTime := c.sourceEventTime
             sourceReceivedAt := c.sourceReceivedAt, valid := h, positive := Nat.one_pos }
    else none

def StoredCandle.withRevision (row : StoredCandle) (n : ℕ) : StoredCandle :=
  { row with dataRevision := n + 1, positive := Nat.succ_pos n }

/-- Everything the update branch of `enforce_raw_candle_revision` compares. -/
def StoredCandle.provenanceChanged (old new : StoredCandle) : Bool :=
  old.values ≠ new.values || old.source ≠ new.source ||
    old.sourceEventTime ≠ new.sourceEventTime || old.sourceReceivedAt ≠ new.sourceReceivedAt

/-- The update branch of the trigger `enforce_raw_candle_revision`, migration 017: its exception. -/
def enforceRawCandleRevision (old new : StoredCandle) : Option String :=
  if old.provenanceChanged new then
    if sourcePriority new.source < sourcePriority old.source then
      some "lower-priority candle source cannot overwrite canonical data"
    else if new.dataRevision ≠ old.dataRevision + 1 then
      some "canonical candle correction or provenance update must advance data_revision exactly once"
    else none
  else if new.dataRevision ≠ old.dataRevision then
    some "data_revision cannot change without a canonical candle or provenance update"
  else none

/-- What `INSERT … ON CONFLICT DO UPDATE … WHERE` makes of a row and a proposed one. -/
def conflictUpdate (old new : StoredCandle) : Option StoredCandle :=
  if ohlcvChanged old new && sourcePriority old.source ≤ sourcePriority new.source then
    some (new.withRevision old.dataRevision)
  else none

/-- `SELECT max(data_revision) FROM candle_revisions`. -/
def Database.priorRevision (d : Database) (key : CandleKey) : Option ℕ :=
  ((d.revisions.keys.filter (·.1 = key)).map (·.2)).max?

/-- The trigger on insert lets a first row through with revision 1 and moves a re-ingested one
past the ledger. -/
def insertedRow (prior : Option ℕ) (new : StoredCandle) : StoredCandle :=
  new.withRevision (prior.getD 0)

/-- The trigger `append_raw_candle_revision` and `_append_raw_revisions`: an insert that does
nothing on conflict. -/
def appendRevision (key : CandleKey) (row : StoredCandle) : Task Unit := do
  let d ← view
  if (d.revisions.lookup (key, row.dataRevision)).isNone then emit (.putRevision key row)

/-- One row of `_upsert_raw_candles`, with its triggers: the row that was written. The trigger on
insert reads the ledger before the row is locked; its callers hold the lock of the asset, so no
other upsert of the key is in between. -/
def upsertRawCandle (writer : Writer) (c : Candle) : Task (Option (CandleKey × StoredCandle)) := do
  match c.excluded with
  | none => raise (.database "IntegrityError")
  | some new =>
    acquire (.rawCandle c.key)
    let d ← view
    let accepted := match d.raw.lookup c.key with
      | none => some (insertedRow (d.priorRevision c.key) new)
      | some old => conflictUpdate old new
    match accepted with
    | none => pure none
    | some row =>
      if ((d.raw.lookup c.key).bind (enforceRawCandleRevision · row)).isSome then
        raise (.database "DBAPIError")
      else
        emit (.putRaw writer c.key row)
        appendRevision c.key row
        pure (some (c.key, row))

/-- `_upsert_raw_candles`, `ingestion.py:201-246`. -/
def upsertRawCandles (writer : Writer) (candles : List Candle) :
    Task (List (CandleKey × StoredCandle)) := do
  let changed ← collect (upsertRawCandle writer) candles
  forEach (fun r => appendRevision r.1 r.2) changed
  pure changed

/-- One row of `_upsert_staged_candles`. -/
def upsertStagedCandle (c : Candle) : Task Unit := do
  match c.excluded with
  | none => raise (.database "IntegrityError")
  | some new =>
    acquire (.stagedCandle c.key)
    let d ← view
    match d.staging.lookup c.key with
    | none => emit (.putStaged c.key new)
    | some old =>
      match conflictUpdate old new with
      | none => pure ()
      | some row => emit (.putStaged c.key row)

/-! ### Coverage -/

/-- The timestamps a block's count, minimum and maximum are taken of. -/
def Database.rawTimestamps (d : Database) (assetId : ℕ) (start stop : ℤ) : List ℤ :=
  (d.raw.keys.filter fun k =>
    k.assetId = assetId && start ≤ k.timestamp && k.timestamp ≤ stop).map (·.timestamp)

/-- `_raw_block_is_complete`, and the check of `enforce_sync_range_raw_coverage`. -/
def Database.rawBlockIsComplete (d : Database) (assetId : ℕ) (start stop : ℤ) : Bool :=
  let timestamps := d.rawTimestamps assetId start stop
  (timestamps.length : ℤ) = (stop - start) / minute + 1 && timestamps.min? = some start &&
    timestamps.max? = some stop

def lockAsset (assetId : ℕ) : Task Unit := acquire (.asset assetId)

/-- The ids of the ranges of an asset that meet `[start, stop]`. -/
def Database.rangesMeeting (d : Database) (assetId : ℕ) (start stop : ℤ) : List ℕ :=
  (d.syncRanges.entries.filter fun e => e.2.assetId = assetId && e.2.startTimestamp ≤ stop &&
    start ≤ e.2.endTimestamp).map (·.1)

/-- `SELECT … FROM sync_ranges … FOR UPDATE`; a range is never updated, it is there or gone. -/
def lockRanges (ids : List ℕ) : Task (List (ℕ × SyncRange)) :=
  Task.lockRows .syncRange (fun d id => d.syncRanges.lookup id) ids.length ids

/-- `INSERT INTO sync_ranges` with the trigger of migration 018, the CHECK and the exclusion
constraint. -/
def insertSyncRange (assetId : ℕ) (start stop : ℤ) : Task Unit := do
  let id ← draw
  acquire (.syncAdvisory assetId)
  let d ← view
  if !d.rawBlockIsComplete assetId start stop then raise (.database "DBAPIError")
  else if h : start ≤ stop then
    let conflicts ← lockRanges ((← view).rangesMeeting assetId start stop)
    if conflicts = [] then emit (.insertRange id ⟨assetId, start, stop, h⟩)
    else raise (.database "IntegrityError")
  else raise (.database "IntegrityError")

/-- `_merge_verified_sync_ranges`, `ingestion.py:305-351`. -/
def mergeVerifiedSyncRanges (assetId : ℕ) (newStart newEnd : ℤ) : Task Unit := do
  lockAsset assetId
  let d ← view
  let overlaps ← lockRanges (d.rangesMeeting assetId (newStart - minute) (newEnd + minute))
  let mergedStart := overlaps.foldl (fun m r => min m r.2.startTimestamp) newStart
  let mergedEnd := overlaps.foldl (fun m r => max m r.2.endTimestamp) newEnd
  forEach (fun r => emit (.deleteRange r.1)) overlaps
  insertSyncRange assetId mergedStart mergedEnd

/-- `update_sync_ranges`, `ingestion.py:353-364`. -/
def updateSyncRanges (assetId : ℕ) (newStart newEnd : ℤ) : Task Unit := do
  let d ← view
  if d.rawBlockIsComplete assetId newStart newEnd then
    mergeVerifiedSyncRanges assetId newStart newEnd
  else
    raise (.runtimeError
      "Refusing to update sync_ranges for an interval that is not fully present in raw_1m_candles")

/-- `_mark_verified_raw_blocks`, `ingestion.py:565-578`. -/
def markVerifiedRawBlocks (assetId : ℕ) (blocks : List (ℤ × ℤ)) : Task Unit :=
  forEach (fun block => do
    let d ← view
    if d.rawBlockIsComplete assetId block.1 block.2 then
      mergeVerifiedSyncRanges assetId block.1 block.2) blocks

/-- The deletion of one row: its key when there was one. -/
def deleteRawCandle (key : CandleKey) : Task (Option CandleKey) := do
  acquire (.rawCandle key)
  let d ← view
  if (d.raw.lookup key).isSome then
    emit (.deleteRaw key)
    pure (some key)
  else pure none

/-- The trigger `invalidate_sync_range_on_raw_candle_delete`, migration 018. -/
def invalidateSyncRange (key : CandleKey) : Task Unit := do
  acquire (.syncAdvisory key.assetId)
  let d ← view
  let ranges ← lockRanges (d.rangesMeeting key.assetId key.timestamp key.timestamp)
  forEach (fun r => emit (.deleteRange r.1)) ranges

/-- `DELETE FROM raw_1m_candles` of some keys; the trigger fires for each deleted row once the
statement has deleted them all. -/
def deleteRawCandles (keys : List CandleKey) : Task Unit := do
  let deleted ← collect deleteRawCandle keys
  forEach invalidateSyncRange deleted

/-! ### Batches -/

/-- `commit_raw_batch_in_transaction`, `ingestion.py:591-606`. -/
def commitRawBatchInTransaction (writer : Writer) (assetId : ℕ) (batch : List CandlePayload) :
    Task Unit := do
  if batch.isEmpty then pure ()
  else
    let now ← Task.now
    let candles ← Task.ofExcept (prepareBatch assetId now batch)
    lockAsset assetId
    let _ ← upsertRawCandles writer candles
    let blocks ← Task.ofExcept (contiguousBlocks (candles.map (·.key.timestamp)))
    markVerifiedRawBlocks assetId blocks

/-- `commit_batch_in_transaction`, `ingestion.py:608-633`. -/
def commitBatchInTransaction (writer : Writer) (assetId : ℕ) (batch : List CandlePayload) :
    Task Unit := do
  if batch.isEmpty then pure ()
  else
    let now ← Task.now
    let candles ← Task.ofExcept (prepareBatch assetId now batch)
    lockAsset assetId
    let cutoff := (← Task.now) - 7 * day
    let live := candles.filter fun c => cutoff ≤ c.key.timestamp
    let historical := candles.filter fun c => c.key.timestamp < cutoff
    if !live.isEmpty then
      let _ ← upsertRawCandles writer live
      let blocks ← Task.ofExcept (contiguousBlocks (live.map (·.key.timestamp)))
      markVerifiedRawBlocks assetId blocks
    forEach upsertStagedCandle historical

/-- `_commit_batch`, `ingestion.py:635-655`; `ownershipCheck` is the caller's fence. -/
def commitBatch (assetId : ℕ) (batch : List CandlePayload) (ownershipCheck : Task Unit) :
    Task Unit :=
  if batch.isEmpty then pure ()
  else Task.inTransaction do
    ownershipCheck
    commitBatchInTransaction .direct assetId batch

/-! ### Missing intervals -/

/-- The scan of `detect_missing_ranges`: the gaps so far, the pointer, and whether the cap on
gaps was reached. `append_gap` is inlined in its two cases. -/
def scanRanges (stop : ℤ) (maxGaps : ℕ) :
    List (ℤ × ℤ) → List (ℤ × ℤ) → ℤ → List (ℤ × ℤ) × ℤ
  | [], gaps, pointer => (gaps, pointer)
  | (rangeStart, rangeEnd) :: rest, gaps, pointer =>
    if pointer < rangeStart then
      if gaps.length < maxGaps then
        let next := max pointer rangeEnd
        if stop ≤ next then (gaps ++ [(pointer, rangeStart)], next)
        else scanRanges stop maxGaps rest (gaps ++ [(pointer, rangeStart)]) next
      else (extendLast gaps stop, pointer)
    else
      let next := max pointer rangeEnd
      if stop ≤ next then (gaps, next) else scanRanges stop maxGaps rest gaps next
where
  /-- `gaps[-1] = (prior_start, requested_end)` -/
  extendLast (gaps : List (ℤ × ℤ)) (stop : ℤ) : List (ℤ × ℤ) :=
    match gaps.getLast? with
    | none => gaps
    | some last => gaps.dropLast ++ [(last.1, stop)]

/-- `detect_missing_ranges`, `ingestion.py:41-140`, of the ranges it selected, in start order. -/
def missingRanges (ranges : List (ℤ × ℤ)) (start stop : ℤ) (maxRanges maxGaps : ℕ) :
    List (ℤ × ℤ) :=
  let (gaps, pointer) := scanRanges stop maxGaps (ranges.take maxRanges) [] start
  if pointer < stop then
    if gaps.length < maxGaps then gaps ++ [(pointer, stop)] else scanRanges.extendLast gaps stop
  else gaps

/-- The ranges of an asset that meet the window, in start order. -/
def Database.rangesIn (d : Database) (assetId : ℕ) (start stop : ℤ) : List (ℤ × ℤ) :=
  ((d.syncRanges.entries.filter fun e => e.2.assetId = assetId && start ≤ e.2.endTimestamp &&
    e.2.startTimestamp ≤ stop).map fun e => (e.2.startTimestamp, e.2.endTimestamp)).insertionSort
      fun r s => r.1 ≤ s.1

/-- `GAP_REPAIR_MAX_SYNC_RANGES_PER_DETECTION`, `GAP_REPAIR_MAX_GAPS_PER_DETECTION`. -/
structure DetectionLimits where
  maxRanges : ℕ := 1000
  maxGaps : ℕ := 500
  positive : 0 < maxRanges ∧ 0 < maxGaps := by decide

/-- `detect_missing_ranges` on the store. -/
def detectMissingRanges (limits : DetectionLimits) (assetId : ℕ) (start stop : ℤ) :
    Task (List (ℤ × ℤ)) := do
  if stop ≤ start then pure []
  else
    let d ← view
    pure (missingRanges (d.rangesIn assetId start stop) start stop limits.maxRanges limits.maxGaps)

/-! ### What these statements write -/

def RevisionWrite : Write → Prop
  | .putRevision _ _ => True
  | _ => False

def StagedWrite : Write → Prop
  | .putStaged _ _ => True
  | _ => False

def RangeWrite : Write → Prop
  | .insertRange _ _ => True
  | .deleteRange _ => True
  | _ => False

/-- The writes of a raw upsert for a writer. -/
def UpsertWrite (writer : Writer) : Write → Prop
  | .putRaw w _ _ => w = writer
  | .putRevision _ _ => True
  | _ => False

/-- The writes of a raw batch. -/
def RawBatchWrite (writer : Writer) : Write → Prop
  | .insertRange _ _ => True
  | .deleteRange _ => True
  | w => UpsertWrite writer w

/-- The writes of a batch that is committed for a writer. -/
def BatchWrite (writer : Writer) : Write → Prop
  | .putStaged _ _ => True
  | w => RawBatchWrite writer w

theorem RevisionWrite.upsert {writer : Writer} {w : Write} (h : RevisionWrite w) :
    UpsertWrite writer w := by
  cases w <;> first | exact h | trivial

theorem UpsertWrite.rawBatch {writer : Writer} {w : Write} (h : UpsertWrite writer w) :
    RawBatchWrite writer w := by
  cases w <;> first | exact h | trivial

theorem RangeWrite.rawBatch {writer : Writer} {w : Write} (h : RangeWrite w) :
    RawBatchWrite writer w := by
  cases w <;> first | exact h | trivial

theorem RawBatchWrite.batch {writer : Writer} {w : Write} (h : RawBatchWrite writer w) :
    BatchWrite writer w := by
  cases w <;> first | exact h | trivial

theorem StagedWrite.batch {writer : Writer} {w : Write} (h : StagedWrite w) :
    BatchWrite writer w := by
  cases w <;> first | exact h | trivial

section
variable {O : (q : Question) → Answer q → Prop} {A : Question → Prop} {writer : Writer}

theorem emits_appendRevision (key : CandleKey) (row : StoredCandle) :
    (appendRevision key row).Emits O RevisionWrite A := by
  refine emits_view.bind fun d => ?_
  split
  · exact (emits_emit _).mpr trivial
  · trivial

theorem emits_upsertRawCandle (c : Candle) :
    (upsertRawCandle writer c).Emits O (UpsertWrite writer) A := by
  unfold upsertRawCandle
  cases c.excluded with
  | none => trivial
  | some new =>
    refine Emits.bind (emits_acquire _) fun _ => emits_view.bind fun d => ?_
    extract_lets accepted
    clear_value accepted
    cases accepted with
    | none => trivial
    | some row =>
      dsimp only
      split
      · trivial
      · refine Emits.bind ((emits_emit _).mpr rfl) fun _ => ?_
        exact ((emits_appendRevision c.key row).mono fun _ => RevisionWrite.upsert).bind fun _ => trivial

theorem emits_upsertRawCandles (cs : List Candle) :
    (upsertRawCandles writer cs).Emits O (UpsertWrite writer) A := by
  refine (Emits.collect fun c _ => emits_upsertRawCandle c).bind fun changed => ?_
  refine Emits.bind (Emits.forEach fun r _ => ?_) fun _ => trivial
  exact (emits_appendRevision r.1 r.2).mono fun _ => RevisionWrite.upsert

theorem emits_upsertStagedCandle (c : Candle) :
    (upsertStagedCandle c).Emits O StagedWrite A := by
  unfold upsertStagedCandle
  cases c.excluded with
  | none => trivial
  | some new =>
    refine Emits.bind (emits_acquire _) fun _ => emits_view.bind fun d => ?_
    split
    · exact (emits_emit _).mpr trivial
    · split
      · trivial
      · exact (emits_emit _).mpr trivial

theorem emits_insertSyncRange (assetId : ℕ) (start stop : ℤ) :
    (insertSyncRange assetId start stop).Emits O RangeWrite A := by
  refine emits_draw.bind fun id => Emits.bind (emits_acquire _) fun _ => emits_view.bind fun d => ?_
  split
  · trivial
  · split
    · refine emits_view.bind fun d' => Emits.bind (emits_lockRows _ _ _ _) fun conflicts => ?_
      split
      · exact (emits_emit _).mpr trivial
      · trivial
    · trivial

theorem emits_mergeVerifiedSyncRanges (assetId : ℕ) (start stop : ℤ) :
    (mergeVerifiedSyncRanges assetId start stop).Emits O RangeWrite A := by
  refine Emits.bind (emits_acquire _) fun _ => emits_view.bind fun d => ?_
  refine Emits.bind (emits_lockRows _ _ _ _) fun overlaps => ?_
  refine Emits.bind (Emits.forEach fun r _ => (emits_emit _).mpr trivial) fun _ => ?_
  exact emits_insertSyncRange _ _ _

theorem emits_markVerifiedRawBlocks (assetId : ℕ) (blocks : List (ℤ × ℤ)) :
    (markVerifiedRawBlocks assetId blocks).Emits O RangeWrite A := by
  refine Emits.forEach fun block _ => emits_view.bind fun d => ?_
  split
  · exact emits_mergeVerifiedSyncRanges _ _ _
  · trivial

theorem open_appendRevision (key : CandleKey) (row : StoredCandle) :
    (appendRevision key row).Open := by
  refine open_view.bind fun d => ?_
  split <;> trivial

theorem open_upsertRawCandle (c : Candle) : (upsertRawCandle writer c).Open := by
  unfold upsertRawCandle
  cases c.excluded with
  | none => trivial
  | some new =>
    refine (open_acquire _).bind fun _ => open_view.bind fun d => ?_
    extract_lets accepted
    clear_value accepted
    cases accepted with
    | none => trivial
    | some row =>
      dsimp only
      split
      · trivial
      · exact (open_emit _).bind fun _ => (open_appendRevision c.key row).bind fun _ => trivial

theorem open_upsertRawCandles (cs : List Candle) : (upsertRawCandles writer cs).Open := by
  refine (Open.collect (fun c => open_upsertRawCandle c) cs).bind fun changed => ?_
  exact Open.bind (Open.forEach (fun r => open_appendRevision r.1 r.2) changed) fun _ => trivial

theorem open_insertSyncRange (assetId : ℕ) (start stop : ℤ) :
    (insertSyncRange assetId start stop).Open := by
  refine open_draw.bind fun id => (open_acquire _).bind fun _ => open_view.bind fun d => ?_
  split
  · trivial
  · split
    · refine open_view.bind fun d' => Open.bind (open_lockRows _ _ _ _) fun conflicts => ?_
      split <;> trivial
    · trivial

theorem open_mergeVerifiedSyncRanges (assetId : ℕ) (start stop : ℤ) :
    (mergeVerifiedSyncRanges assetId start stop).Open := by
  refine Open.bind (open_acquire _) fun _ => open_view.bind fun d => ?_
  refine Open.bind (open_lockRows _ _ _ _) fun overlaps => ?_
  exact (Open.forEach (fun r => open_emit _) _).bind fun _ => open_insertSyncRange _ _ _

theorem open_markVerifiedRawBlocks (assetId : ℕ) (blocks : List (ℤ × ℤ)) :
    (markVerifiedRawBlocks assetId blocks).Open := by
  refine Open.forEach (fun block => open_view.bind fun d => ?_) _
  split
  · exact open_mergeVerifiedSyncRanges _ _ _
  · trivial

theorem open_commitRawBatchInTransaction (assetId : ℕ) (batch : List CandlePayload) :
    (commitRawBatchInTransaction writer assetId batch).Open := by
  unfold commitRawBatchInTransaction
  split
  · trivial
  · refine open_now.bind fun now => (open_ofExcept _).bind fun candles => ?_
    refine (open_acquire _).bind fun _ => (open_upsertRawCandles candles).bind fun _ => ?_
    exact (open_ofExcept _).bind fun blocks => open_markVerifiedRawBlocks assetId blocks

theorem emits_commitRawBatchInTransaction (hA : LocalQuestions A) (assetId : ℕ)
    (batch : List CandlePayload) :
    (commitRawBatchInTransaction writer assetId batch).Emits O (RawBatchWrite writer) A := by
  unfold commitRawBatchInTransaction
  split
  · trivial
  · refine (emits_now hA).bind fun now => (emits_ofExcept _).bind fun candles => ?_
    refine Emits.bind (emits_acquire _) fun _ =>
      ((emits_upsertRawCandles candles).mono fun _ => UpsertWrite.rawBatch).bind fun _ => ?_
    refine (emits_ofExcept _).bind fun blocks => ?_
    exact (emits_markVerifiedRawBlocks assetId blocks).mono fun _ => RangeWrite.rawBatch

theorem open_upsertStagedCandle (c : Candle) : (upsertStagedCandle c).Open := by
  unfold upsertStagedCandle
  cases c.excluded with
  | none => trivial
  | some new =>
    refine (open_acquire _).bind fun _ => open_view.bind fun d => ?_
    split
    · trivial
    · split <;> trivial

theorem open_commitBatchInTransaction (assetId : ℕ) (batch : List CandlePayload) :
    (commitBatchInTransaction writer assetId batch).Open := by
  unfold commitBatchInTransaction
  split
  · trivial
  · refine open_now.bind fun now => (open_ofExcept _).bind fun candles => ?_
    refine (open_acquire _).bind fun _ => open_now.bind fun instant => ?_
    dsimp only
    split
    · refine (open_upsertRawCandles _).bind fun _ => (open_ofExcept _).bind fun blocks => ?_
      exact (open_markVerifiedRawBlocks assetId blocks).bind fun _ =>
        Open.forEach open_upsertStagedCandle _
    · exact Open.forEach open_upsertStagedCandle _

theorem emits_commitBatchInTransaction (hA : LocalQuestions A) (assetId : ℕ)
    (batch : List CandlePayload) :
    (commitBatchInTransaction writer assetId batch).Emits O (BatchWrite writer) A := by
  unfold commitBatchInTransaction
  split
  · trivial
  · refine (emits_now hA).bind fun now => (emits_ofExcept _).bind fun candles => ?_
    refine Emits.bind (emits_acquire _) fun _ => (emits_now hA).bind fun now' => ?_
    have hstaged (historical : List Candle) :
        (forEach upsertStagedCandle historical).Emits O (BatchWrite writer) A :=
      Emits.forEach fun c _ => (emits_upsertStagedCandle c).mono fun _ => StagedWrite.batch
    dsimp only
    split
    · refine ((emits_upsertRawCandles _).mono fun _ h => h.rawBatch.batch).bind fun _ => ?_
      refine (emits_ofExcept _).bind fun blocks => ?_
      exact ((emits_markVerifiedRawBlocks assetId blocks).mono fun _ h => h.rawBatch.batch).bind
        fun _ => hstaged _
    · exact hstaged _

theorem emits_commitBatch (hA : LocalQuestions A) (assetId : ℕ) (batch : List CandlePayload) :
    (commitBatch assetId batch (pure ())).Emits O (BatchWrite .direct) A := by
  unfold commitBatch
  split
  · trivial
  · exact emits_inTransaction hA (emits_commitBatchInTransaction hA assetId batch)

theorem emits_detectMissingRanges {S : Write → Prop} (limits : DetectionLimits) (assetId : ℕ)
    (start stop : ℤ) : (detectMissingRanges limits assetId start stop).Emits O S A := by
  unfold detectMissingRanges
  split
  · trivial
  · exact emits_view.bind fun d => trivial

end
end Quantive.Candles
