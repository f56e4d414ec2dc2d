import Mathlib.Algebra.Order.Group.Multiset
import Mathlib.Tactic.Abel
import Quantive.WsSharding.Flushes
import Quantive.WsSharding.QueueAccounting

/-!
# Conservation of accepted events

Every accepted event is queued, in flight or counted, as long as no flush ends early. A flush ends
early when the registry is unavailable, when the shard is fenced before one of several groups, and
when its task is cancelled; the events it then lets go are not counted.
-/

namespace Quantive.WsSharding

variable {limits : PipelineLimits} {p p' : Pipeline} {t t' : PipelineTasks}

/-! ### Where events are -/

def groupEvents (groups : List (ℕ × List CandleEvent)) : Multiset CandleEvent :=
  (groups.flatMap (·.2) : List CandleEvent)

def Flush.inFlight : Flush → Multiset CandleEvent
  | .resolving groups event rest => groupEvents groups + (event :: rest : List CandleEvent)
  | .committing _ events rest => events + groupEvents rest

def inFlightOf (flush : Option Flush) : Multiset CandleEvent := flush.elim 0 Flush.inFlight

def Flusher.inFlight : Flusher → Multiset CandleEvent
  | .flushing flush => flush.inFlight
  | _ => 0

def StopCall.inFlight : StopCall → Multiset CandleEvent
  | .draining flush => flush.inFlight
  | _ => 0

/-- The batches in flight: of the flusher, and of the calls of `stop` that flush what is left. -/
def PipelineTasks.inFlight (t : PipelineTasks) : Multiset CandleEvent :=
  t.flusher.inFlight + (t.stops.map StopCall.inFlight).sum

/-- Queued or counted. -/
def Pipeline.accounted (p : Pipeline) : Multiset CandleEvent :=
  p.queue + p.books.persisted + p.books.duplicate + p.books.unmapped + p.books.inactive +
    p.books.discarded + p.books.failed.sum

def Conserved (t : PipelineTasks) : Prop :=
  t.pipeline.books.accepted = t.pipeline.accounted + t.inFlight

/-- The counters count the events of the books. -/
structure Pipeline.Counts (p : Pipeline) : Prop where
  received : p.metrics.candlesReceived = p.books.accepted.card
  persisted : p.metrics.candlesPersisted = p.books.persisted.card
  duplicate : p.metrics.duplicateCandles = p.books.duplicate.card
  unmapped : p.metrics.unmappedSymbolRejections = p.books.unmapped.card
  inactive : p.metrics.inactiveAssetRejections = p.books.inactive.card
  discarded : p.metrics.fencedEventsDiscarded = p.books.discarded.card + p.books.refused
  failed : p.metrics.persistenceErrors = p.books.failed.length + p.books.unavailable

/-! ### What a step lets go -/

/-- The groups behind the one before which the fencing check fails. -/
def passedOver (owned : Bool) (groups : List (ℕ × List CandleEvent)) : Multiset CandleEvent :=
  if owned then 0 else groupEvents groups.tail

/-- The events of a flush that its next turn neither keeps nor counts. -/
def Flush.drops (owned : Bool) : Flush → FlushAnswer → Multiset CandleEvent
  | .resolving groups event rest, .registryUnavailable _ => (Flush.resolving groups event rest).inFlight
  | .resolving groups event [], .registry info => passedOver owned (grouped info event groups)
  | .committing _ _ rest, .persisted => passedOver owned rest
  | .committing _ _ rest, .fenceLost _ => passedOver owned rest
  | .committing _ _ rest, .commitFailed => passedOver owned rest
  | _, _ => 0

def Flusher.drops (owned : Bool) (answer : FlushAnswer) : Flusher → Multiset CandleEvent
  | .flushing flush => flush.drops owned answer
  | _ => 0

def PipelineTasks.drops (t : PipelineTasks) : PipelineAction → Multiset CandleEvent
  | .flusherResumes answer owned => t.flusher.drops owned answer
  | .flusherCancelled => t.flusher.inFlight
  | .stopResumes flush answer owned => flush.drops owned answer
  | .stopCancelled flush => flush.inFlight
  | _ => 0

/-! ### Flushes that run to their end -/

/-- At most one group is left when the fencing check fails. -/
def LastGroup (owned : Bool) (groups : List (ℕ × List CandleEvent)) : Prop :=
  owned = true ∨ groups.length ≤ 1

/-- The registry answers, and the shard is not fenced before one of several groups. -/
def Flush.GoesOn (owned : Bool) : Flush → FlushAnswer → Prop
  | .resolving _ _ _, .registryUnavailable _ => False
  | .resolving groups event [], .registry info => LastGroup owned (grouped info event groups)
  | .committing _ _ rest, .persisted => LastGroup owned rest
  | .committing _ _ rest, .fenceLost _ => LastGroup owned rest
  | .committing _ _ rest, .commitFailed => LastGroup owned rest
  | _, _ => True

/-- No flush ends before its last group, or by a cancellation. -/
def FlushesToTheEnd (t : PipelineTasks) : PipelineAction → Prop
  | .flusherResumes answer owned => ∀ flush, t.flusher = .flushing flush → flush.GoesOn owned answer
  | .flusherCancelled => ∀ flush, t.flusher ≠ .flushing flush
  | .stopResumes flush answer owned => flush.GoesOn owned answer
  | .stopCancelled _ => False
  | _ => True

/-! ### Moves of events -/

/-- `p` becomes `p'`, takes the events `taken` and hands out the events `given`. -/
structure Pipeline.Moves (p p' : Pipeline) (given taken : Multiset CandleEvent) : Prop where
  accepted : p'.books.accepted = p.books.accepted
  balance : p'.accounted + given = p.accounted + taken
  counts : p.Counts → p'.Counts

section
variable {p₁ p₂ : Pipeline} {given given' taken taken' events : Multiset CandleEvent}

theorem Pipeline.Moves.refl (p : Pipeline) (events : Multiset CandleEvent) : p.Moves p events events :=
  ⟨rfl, rfl, id⟩

theorem Pipeline.Moves.trans (h : p.Moves p₁ given taken) (h' : p₁.Moves p₂ given' given) :
    p.Moves p₂ given' taken :=
  ⟨h'.accepted.trans h.accepted, h'.balance.trans h.balance, fun hp => h'.counts (h.counts hp)⟩

/-- More events on both sides. -/
theorem Pipeline.Moves.frame (h : p.Moves p' given taken) (events : Multiset CandleEvent) :
    p.Moves p' (given + events) (taken + events) := by
  refine ⟨h.accepted, ?_, h.counts⟩
  rw [← add_assoc, ← add_assoc, h.balance]

theorem moves_discarding (p : Pipeline) (events : Multiset CandleEvent) :
    p.Moves (p.discarding events) 0 events := by
  refine ⟨rfl, ?_, fun h => { h with discarded := ?_ }⟩
  · unfold Pipeline.accounted Pipeline.discarding
    dsimp only
    abel
  · unfold Pipeline.discarding
    dsimp only
    rw [h.discarded, Multiset.card_add]
    omega

theorem moves_discard (p : Pipeline) : p.Moves p.discardUncommittedBuffers 0 0 := by
  have hdiscarded := moves_discarding p p.queue
  refine ⟨rfl, ?_, fun h => ?_⟩
  · have hbalance := hdiscarded.balance
    have hempty : (p.discarding p.queue).accounted = p.queue + p.discardUncommittedBuffers.accounted := by
      unfold Pipeline.discardUncommittedBuffers Pipeline.accounted Pipeline.discarding
      dsimp only
      rw [Multiset.coe_nil]
      abel
    rw [hempty, add_zero, add_comm] at hbalance
    rw [add_zero, add_zero]
    exact add_right_cancel hbalance
  · have hcounts := hdiscarded.counts h
    exact ⟨hcounts.received, hcounts.persisted, hcounts.duplicate, hcounts.unmapped, hcounts.inactive,
      hcounts.discarded, hcounts.failed⟩

/-- A change of what is neither queued nor counted. -/
theorem Pipeline.Moves.of_same (hqueue : p'.queue = p.queue) (hmetrics : p'.metrics = p.metrics)
    (hbooks : p'.books = p.books) : p.Moves p' 0 0 := by
  refine ⟨by rw [hbooks], ?_, fun h => ?_⟩
  · unfold Pipeline.accounted
    rw [hqueue, hbooks]
  · constructor
    all_goals rw [hmetrics, hbooks]
    exacts [h.received, h.persisted, h.duplicate, h.unmapped, h.inactive, h.discarded, h.failed]

theorem moves_fence (p : Pipeline) : p.Moves p.fence 0 0 := by
  have hstopped : p.Moves { p with isRunning := false, flusherCancelled := true, fenced := true } 0 0 :=
    .of_same rfl rfl rfl
  exact hstopped.trans (moves_discard _)

theorem moves_fenceIf (fences : Bool) (p : Pipeline) : p.Moves (p.fenceIf fences) 0 0 := by
  cases fences
  · exact .refl p 0
  · exact moves_fence p

theorem moves_commitError (p : Pipeline) (events : List CandleEvent) :
    p.Moves (p.commitError events) 0 events := by
  refine ⟨rfl, ?_, fun h => { h with failed := ?_ }⟩
  · unfold Pipeline.accounted Pipeline.commitError
    dsimp only
    rw [List.sum_cons]
    abel
  · unfold Pipeline.commitError
    dsimp only
    rw [h.failed, List.length_cons]
    omega

theorem moves_recordFlushComplete (p : Pipeline) (events : List CandleEvent) :
    p.Moves (p.recordFlushComplete events) 0 events := by
  refine ⟨rfl, ?_, fun h => { h with persisted := ?_ }⟩
  · unfold Pipeline.accounted Pipeline.recordFlushComplete
    dsimp only
    abel
  · unfold Pipeline.recordFlushComplete
    dsimp only
    rw [h.persisted, Multiset.card_add, Multiset.coe_card]

theorem moves_registryError (p : Pipeline) : p.Moves p.registryError 0 0 := by
  refine ⟨rfl, rfl, fun h => { h with failed := ?_ }⟩
  unfold Pipeline.registryError
  dsimp only
  rw [h.failed]
  omega

end

/-! ### A flush -/

theorem groupEvents_cons (assetId : ℕ) (events : List CandleEvent) (rest : List (ℕ × List CandleEvent)) :
    groupEvents ((assetId, events) :: rest) = events + groupEvents rest := by
  unfold groupEvents
  rw [List.flatMap_cons, Multiset.coe_add]

theorem groupEvents_appendTo (assetId : ℕ) (event : CandleEvent) (groups : List (ℕ × List CandleEvent)) :
    groupEvents (appendTo assetId event groups) = groupEvents groups + {event} := by
  induction groups with
  | nil => rfl
  | cons group rest ih =>
    obtain ⟨a, events⟩ := group
    unfold appendTo
    split
    · rw [groupEvents_cons, groupEvents_cons, ← Multiset.coe_add, Multiset.coe_singleton]
      abel
    · rw [groupEvents_cons, groupEvents_cons, ih, add_assoc]

/-- The loop over the sorted events keeps them all. -/
theorem dedupFrom_partition (seen : List ℤ) (events : List CandleEvent) :
    ((dedupFrom seen events).1 : Multiset CandleEvent) + (dedupFrom seen events).2 = events := by
  induction events generalizing seen with
  | nil => rfl
  | cons event rest ih =>
    unfold dedupFrom
    split
    · dsimp only
      rw [← Multiset.cons_coe, Multiset.add_cons, ih, Multiset.cons_coe]
    · dsimp only
      rw [← Multiset.cons_coe, Multiset.cons_add, ih, Multiset.cons_coe]

theorem dedupedEvents_partition (events : List CandleEvent) :
    ((dedupedEvents events).1 : Multiset CandleEvent) + (dedupedEvents events).2 = events := by
  unfold dedupedEvents
  rw [dedupFrom_partition]
  exact Multiset.coe_eq_coe.mpr (List.perm_insertionSort _ _)

theorem moves_nextGroup (owned : Bool) (p : Pipeline) (groups : List (ℕ × List CandleEvent)) :
    p.Moves (p.nextGroup owned groups).1 (inFlightOf (p.nextGroup owned groups).2 +
      passedOver owned groups) (groupEvents groups) := by
  cases groups with
  | nil => cases owned <;> exact .refl p 0
  | cons group rest =>
    obtain ⟨assetId, events⟩ := group
    rw [groupEvents_cons]
    cases owned with
    | false =>
      have hmoves := (moves_discarding p events).frame (groupEvents rest)
      exact hmoves
    | true =>
      have hcounted : (p.nextGroup true ((assetId, events) :: rest)).1.accounted =
          p.accounted + (dedupedEvents events).2 := by
        unfold Pipeline.accounted Pipeline.nextGroup
        simp only [if_true]
        abel
      refine ⟨rfl, ?_, fun h => { h with duplicate := ?_ }⟩
      · change _ + ((dedupedEvents events).1 + groupEvents rest + 0) = _
        rw [hcounted, ← dedupedEvents_partition events]
        abel
      · unfold Pipeline.nextGroup
        simp only [if_true]
        rw [h.duplicate, Multiset.card_add, Multiset.coe_card]

theorem moves_resolved (info : Option (ℕ × Bool)) (event : CandleEvent) (p : Pipeline)
    (groups : List (ℕ × List CandleEvent)) :
    p.Moves (p.resolved info event) (groupEvents (grouped info event groups))
      (groupEvents groups + {event}) := by
  unfold Pipeline.resolved
  split
  · refine ⟨rfl, ?_, fun h => { h with unmapped := ?_ }⟩
    · unfold Pipeline.accounted grouped
      dsimp only
      abel
    · dsimp only
      rw [h.unmapped, Multiset.card_add, Multiset.card_singleton]
  · refine ⟨rfl, ?_, fun h => { h with inactive := ?_ }⟩
    · unfold Pipeline.accounted grouped
      dsimp only
      abel
    · dsimp only
      rw [h.inactive, Multiset.card_add, Multiset.card_singleton]
  · rename_i assetId
    have hgrouped : groupEvents (grouped (some (assetId, true)) event groups) =
        groupEvents groups + {event} := groupEvents_appendTo assetId event groups
    rw [hgrouped]
    exact .refl p _

/-- One turn of a flush. -/
theorem moves_resume (owned : Bool) (p : Pipeline) (flush : Flush) (answer : FlushAnswer) :
    p.Moves (flush.resume owned p answer).1
      (inFlightOf (flush.resume owned p answer).2 + flush.drops owned answer) flush.inFlight := by
  have hstays : p.Moves p (inFlightOf (some flush) + 0) flush.inFlight := by
    rw [add_zero]
    exact .refl p _
  cases flush with
  | resolving groups event rest =>
    cases answer with
    | registryUnavailable fences =>
      have hmoves := ((moves_registryError p).trans (moves_fenceIf fences _)).frame
        (Flush.resolving groups event rest).inFlight
      rwa [zero_add] at hmoves
    | registry info =>
      have hresolved := moves_resolved info event p groups
      cases rest with
      | nil => exact hresolved.trans (moves_nextGroup owned _ _)
      | cons next rest =>
        have hmoves := hresolved.frame (next :: rest : List CandleEvent)
        rw [add_assoc, Multiset.singleton_add, Multiset.cons_coe] at hmoves
        have hdrops : (Flush.resolving groups event (next :: rest)).drops owned (.registry info) = 0 := rfl
        rw [hdrops, add_zero]
        exact hmoves
    | persisted => exact hstays
    | fenceLost fences => exact hstays
    | commitFailed => exact hstays
  | committing assetId events rest =>
    -- the group is counted, and the loop goes on with the next one
    have hnext : ∀ {p' : Pipeline}, p.Moves p' 0 events →
        p.Moves (p'.nextGroup owned rest).1 (inFlightOf (p'.nextGroup owned rest).2 +
          passedOver owned rest) (Flush.committing assetId events rest).inFlight := by
      intro p' hcounted
      have hmoves := hcounted.frame (groupEvents rest)
      rw [zero_add] at hmoves
      exact hmoves.trans (moves_nextGroup owned p' rest)
    cases answer with
    | registry info => exact hstays
    | registryUnavailable fences => exact hstays
    | persisted => exact hnext (moves_recordFlushComplete p events)
    | fenceLost fences => exact hnext ((moves_commitError p events).trans (moves_fenceIf fences _))
    | commitFailed => exact hnext (moves_commitError p events)

/-! ### Batches -/

theorem moves_drainBatchItems (p : Pipeline) (maxItems : ℕ) :
    p.Moves (p.drainBatchItems maxItems).1 (p.drainBatchItems maxItems).2 0 := by
  refine ⟨rfl, ?_, fun h => ⟨h.received, h.persisted, h.duplicate, h.unmapped, h.inactive, h.discarded,
    h.failed⟩⟩
  have hqueue : (p.queue : Multiset CandleEvent) = p.queue.take maxItems + p.queue.drop maxItems := by
    rw [Multiset.coe_add, List.take_append_drop]
  unfold Pipeline.accounted Pipeline.drainBatchItems
  dsimp only
  rw [hqueue]
  abel

theorem moves_processAndFlushBatch (owned : Bool) (p : Pipeline) (batch : List CandleEvent) :
    p.Moves (p.processAndFlushBatch owned batch).1
      (inFlightOf (p.processAndFlushBatch owned batch).2) batch := by
  cases batch with
  | nil => exact .refl p 0
  | cons event rest =>
    cases owned with
    | false => exact moves_discarding p _
    | true =>
      refine ⟨rfl, ?_, id⟩
      change p.accounted + (groupEvents [] + (event :: rest : List CandleEvent)) = _
      have hnone : groupEvents [] = 0 := rfl
      rw [hnone, zero_add]

theorem moves_batch (p : Pipeline) (maxItems : ℕ) (owned : Bool) :
    p.Moves ((p.drainBatchItems maxItems).1.processAndFlushBatch owned (p.drainBatchItems maxItems).2).1
      (inFlightOf ((p.drainBatchItems maxItems).1.processAndFlushBatch owned
        (p.drainBatchItems maxItems).2).2) 0 :=
  (moves_drainBatchItems p maxItems).trans (moves_processAndFlushBatch owned _ _)

theorem moves_drainAndFlush (p : Pipeline) (owned : Bool) :
    p.Moves (p.drainAndFlush limits owned).1 (inFlightOf (p.drainAndFlush limits owned).2) 0 := by
  induction p using Pipeline.drainAndFlush.induct limits owned with
  | case1 p hempty =>
    rw [Pipeline.drainAndFlush, if_pos hempty]
    have hmoves := moves_drainBatchItems p limits.batchSize
    rwa [hempty] at hmoves
  | case2 p hbatch p' flush hflush =>
    have hmoves := moves_batch p limits.batchSize owned
    rw [hflush] at hmoves
    rw [drainAndFlush_flushing hbatch hflush]
    exact hmoves
  | case3 p hbatch p' hflush ih =>
    have hmoves := moves_batch p limits.batchSize owned
    rw [hflush] at hmoves
    rw [drainAndFlush_loop hbatch hflush]
    exact hmoves.trans ih

theorem moves_wake (p : Pipeline) (owned : Bool) :
    p.Moves (p.wake limits owned).1 (inFlightOf (p.wake limits owned).2) 0 := by
  unfold Pipeline.wake
  split
  · exact moves_batch p limits.batchSize owned
  · exact .refl p 0

theorem moves_finishStop (p : Pipeline) (owned flush : Bool) :
    p.Moves (p.finishStop limits owned flush).1 (inFlightOf (p.finishStop limits owned flush).2) 0 := by
  have hjoined : p.Moves { p with flusherTask := false } 0 0 := .of_same rfl rfl rfl
  unfold Pipeline.finishStop
  cases flush
  · exact hjoined.trans (moves_discard _)
  · exact hjoined.trans (moves_drainAndFlush _ owned)

/-! ### Steps -/

/-- A step accepts events, moves others, and lets go of `dropped`. -/
structure Conserves (t t' : PipelineTasks) (dropped : Multiset CandleEvent) : Prop where
  balance : ∃ added, t'.pipeline.books.accepted = t.pipeline.books.accepted + added ∧
    t'.pipeline.accounted + t'.inFlight + dropped = t.pipeline.accounted + t.inFlight + added
  counts : t.pipeline.Counts → t'.pipeline.Counts

section
variable {given taken dropped : Multiset CandleEvent}

theorem Conserves.of_moves (h : t.pipeline.Moves t'.pipeline given taken)
    (hflight : t'.inFlight + dropped + taken = t.inFlight + given) : Conserves t t' dropped := by
  refine ⟨⟨0, by rw [h.accepted, add_zero], ?_⟩, h.counts⟩
  refine @add_right_cancel _ _ _ _ (given + taken) _ ?_
  calc t'.pipeline.accounted + t'.inFlight + dropped + (given + taken)
      = t'.pipeline.accounted + given + (t'.inFlight + dropped + taken) := by abel
    _ = t.pipeline.accounted + taken + (t.inFlight + given) := by rw [h.balance, hflight]
    _ = t.pipeline.accounted + t.inFlight + 0 + (given + taken) := by abel

theorem Conserves.unmoved (h : t.pipeline.Moves t'.pipeline 0 0) (hflight : t'.inFlight = t.inFlight) :
    Conserves t t' 0 :=
  .of_moves h (by rw [hflight, add_zero])

theorem Conserves.put (event : CandleEvent) (hpipeline : t'.pipeline = t.pipeline.put event)
    (hflight : t'.inFlight = t.inFlight) : Conserves t t' 0 := by
  rw [← Multiset.coe_nil]
  refine ⟨⟨{event}, by rw [hpipeline]; rfl, ?_⟩, fun h => ?_⟩
  · have hqueue : ((t.pipeline.put event).queue : Multiset CandleEvent) = t.pipeline.queue + {event} := by
      rw [← Multiset.coe_singleton, Multiset.coe_add]
      rfl
    rw [hpipeline, hflight]
    unfold Pipeline.accounted
    rw [hqueue, Multiset.coe_nil]
    unfold Pipeline.put
    dsimp only
    abel
  · rw [hpipeline]
    refine { h with received := ?_ }
    unfold Pipeline.put
    dsimp only
    rw [h.received, Multiset.card_add, Multiset.card_singleton]

/-- Without an accepted event a call only counts. -/
theorem conserves_enqueueCandle {owned : Bool} {event : CandleEvent}
    (hpipeline : t'.pipeline = (t.pipeline.enqueueCandle limits owned event).1)
    (hflight : t'.inFlight = t.inFlight) : Conserves t t' 0 := by
  have hunmoved : t.pipeline.Moves t'.pipeline 0 0 → Conserves t t' 0 := fun h => .unmoved h hflight
  unfold Pipeline.enqueueCandle at hpipeline
  split at hpipeline
  · exact hunmoved (hpipeline ▸ .refl _ 0)
  · split at hpipeline
    · refine hunmoved (hpipeline ▸ ⟨rfl, rfl, fun h => ?_⟩)
      exact ⟨h.received, h.persisted, h.duplicate, h.unmapped, h.inactive, h.discarded, h.failed⟩
    · split at hpipeline
      · refine hunmoved (hpipeline ▸ ⟨rfl, rfl, fun h => { h with discarded := ?_ }⟩)
        dsimp only
        rw [h.discarded, Nat.add_assoc]
      · split at hpipeline
        · refine hunmoved (hpipeline ▸ ⟨rfl, rfl, fun h => ?_⟩)
          exact ⟨h.received, h.persisted, h.duplicate, h.unmapped, h.inactive, h.discarded, h.failed⟩
        · split at hpipeline
          · exact hunmoved (hpipeline ▸ .refl _ 0)
          · exact .put event hpipeline hflight

theorem loop_inFlight (p : Pipeline) (flush : Option Flush) :
    (Flusher.loop p flush).inFlight = inFlightOf flush := by
  cases flush with
  | none =>
    unfold Flusher.loop
    cases p.isRunning <;> rfl
  | some flush => rfl

theorem stops_inFlight (before after calls : List StopCall) :
    ((before ++ calls ++ after).map StopCall.inFlight).sum =
      (before.map StopCall.inFlight).sum + (calls.map StopCall.inFlight).sum +
        (after.map StopCall.inFlight).sum := by
  rw [List.map_append, List.map_append, List.sum_append, List.sum_append]

theorem drainingCall_inFlight (flush : Option Flush) :
    ((drainingCall flush).map StopCall.inFlight).sum = inFlightOf flush := by
  cases flush with
  | none => rfl
  | some flush => exact List.sum_singleton

/-- Calls of `stop` give way to others. -/
theorem inFlight_replaced {t t' : PipelineTasks} {before calls calls' after : List StopCall}
    (h : t.stops = before ++ calls ++ after) (h' : t'.stops = before ++ calls' ++ after)
    (hflusher : t'.flusher = t.flusher) :
    t'.inFlight + (calls.map StopCall.inFlight).sum =
      t.inFlight + (calls'.map StopCall.inFlight).sum := by
  unfold PipelineTasks.inFlight
  rw [h, h', hflusher, stops_inFlight, stops_inFlight]
  abel

end

/-- What a step does not account for is what it drops. -/
theorem Acts.conserves {action : PipelineAction} (h : Acts limits t action t') :
    Conserves t t' (t.drops action) := by
  cases h with
  | @enqueue event owned p accepted hcall =>
    exact conserves_enqueueCandle (by rw [hcall]) rfl
  | @suspend event owned p hcall =>
    exact conserves_enqueueCandle (by rw [hcall]) rfl
  | land => exact .put _ rfl rfl
  | @giveUp _ _ _ timeout _ =>
    refine Conserves.unmoved ?_ rfl
    cases timeout
    · exact .refl _ 0
    · refine ⟨rfl, rfl, fun h => ?_⟩
      exact ⟨h.received, h.persisted, h.duplicate, h.unmapped, h.inactive, h.discarded, h.failed⟩
  | fence => exact Conserves.unmoved (moves_fence _) rfl
  | @wake owned p flush hwaiting hwake =>
    have hmoves := @moves_wake limits t.pipeline owned
    rw [hwake] at hmoves
    refine .of_moves hmoves ?_
    unfold PipelineTasks.inFlight PipelineTasks.drops
    dsimp only
    rw [hwaiting, loop_inFlight]
    simp only [Flusher.inFlight]
    abel
  | @flusherResumes answer owned current p flush hflushing hresume =>
    have hmoves := moves_resume owned t.pipeline current answer
    rw [hresume] at hmoves
    refine .of_moves hmoves ?_
    unfold PipelineTasks.inFlight PipelineTasks.drops
    dsimp only
    rw [hflushing, loop_inFlight]
    simp only [Flusher.inFlight, Flusher.drops]
    abel
  | flusherCancelled hdone _ =>
    refine .of_moves (.refl _ 0) ?_
    unfold PipelineTasks.inFlight PipelineTasks.drops
    simp only [Flusher.inFlight]
    abel
  | stopAgain => exact Conserves.unmoved (.refl _ 0) rfl
  | stop =>
    refine .of_moves (.of_same rfl rfl rfl) ?_
    unfold PipelineTasks.inFlight PipelineTasks.drops
    simp [StopCall.inFlight]
  | @joined before after call flush owned p draining hstops hcall hdone hfinish =>
    have hmoves := @moves_finishStop limits t.pipeline owned flush
    rw [hfinish] at hmoves
    have hcalls := @inFlight_replaced t
      { t with pipeline := p, stops := before ++ drainingCall draining ++ after } before [call]
      (drainingCall draining) after (by rw [hstops]; simp) rfl rfl
    have hidle : ([call].map StopCall.inFlight).sum = 0 := by
      rcases hcall with rfl | rfl <;> rfl
    rw [hidle, drainingCall_inFlight] at hcalls
    refine .of_moves hmoves ?_
    have hdrops : t.drops (.joined call flush owned) = 0 := rfl
    rw [hdrops, add_zero]
    exact hcalls
  | @joinTimeout before after flush hstops _ =>
    refine .of_moves (.of_same rfl rfl rfl) ?_
    unfold PipelineTasks.inFlight PipelineTasks.drops
    rw [hstops]
    simp [StopCall.inFlight]
  | @joinFails before after flush hstops _ =>
    refine .of_moves (.refl _ 0) ?_
    unfold PipelineTasks.inFlight PipelineTasks.drops
    rw [hstops]
    simp [StopCall.inFlight]
  | @stopResumes before after current answer owned p flush hstops hresume =>
    have hmoves := moves_resume owned t.pipeline current answer
    rw [hresume] at hmoves
    refine .of_moves hmoves ?_
    unfold PipelineTasks.inFlight PipelineTasks.drops
    dsimp only
    rw [hstops]
    simp only [List.map_append, List.map_cons, List.sum_append, List.sum_cons, StopCall.inFlight,
      inFlightOf, Option.elim_some]
    abel
  | @stopGoesOn before after current answer owned p p' flush hstops hresume hloop =>
    have hmoves := moves_resume owned t.pipeline current answer
    rw [hresume] at hmoves
    have hdrained := @moves_drainAndFlush limits p owned
    rw [hloop] at hdrained
    have hnone : inFlightOf none = 0 := rfl
    rw [hnone, zero_add] at hmoves
    have hrest := hdrained.frame (current.drops owned answer)
    rw [zero_add] at hrest
    refine .of_moves (hmoves.trans hrest) ?_
    unfold PipelineTasks.inFlight PipelineTasks.drops
    dsimp only
    rw [hstops, stops_inFlight, drainingCall_inFlight]
    simp only [List.map_append, List.map_cons, List.sum_append, List.sum_cons, StopCall.inFlight]
    abel
  | @stopCancelled before after current hstops =>
    refine .of_moves (.refl _ 0) ?_
    unfold PipelineTasks.inFlight PipelineTasks.drops
    rw [hstops]
    simp only [List.map_append, List.map_cons, List.sum_append, List.sum_cons, StopCall.inFlight]
    abel

/-! ### Runs -/

theorem groupEvents_eq_zero {groups : List (ℕ × List CandleEvent)} (h : FilledGroups groups) :
    groupEvents groups = 0 ↔ groups = [] := by
  unfold groupEvents
  rw [Multiset.coe_eq_zero, List.flatMap_eq_nil_iff, List.eq_nil_iff_forall_not_mem]
  exact ⟨fun hempty g hg => h g hg (hempty g hg), fun hempty g hg => absurd hg (hempty g)⟩

theorem passedOver_eq_zero {groups : List (ℕ × List CandleEvent)} (h : FilledGroups groups)
    (owned : Bool) : passedOver owned groups = 0 ↔ LastGroup owned groups := by
  unfold passedOver LastGroup
  cases owned with
  | true => simp
  | false =>
    have htail : FilledGroups groups.tail := fun g hg => h g (List.mem_of_mem_tail hg)
    rw [if_neg Bool.false_ne_true, groupEvents_eq_zero htail, ← List.length_eq_zero_iff,
      List.length_tail]
    simp only [Bool.false_eq_true, false_or]
    omega

theorem inFlight_ne_zero {flush : Flush} (h : flush.Filled) : flush.inFlight ≠ 0 := by
  rw [← Multiset.card_pos]
  cases flush with
  | resolving groups event rest =>
    unfold Flush.inFlight
    rw [Multiset.card_add, Multiset.coe_card, List.length_cons]
    omega
  | committing assetId events rest =>
    have hevents : 0 < events.length := List.length_pos_iff.mpr h.1
    unfold Flush.inFlight
    rw [Multiset.card_add, Multiset.coe_card]
    omega

theorem Flush.drops_eq_zero {flush : Flush} (h : flush.Filled) (owned : Bool)
    (answer : FlushAnswer) : flush.drops owned answer = 0 ↔ flush.GoesOn owned answer := by
  unfold Flush.drops Flush.GoesOn
  cases flush with
  | resolving groups event rest =>
    cases answer with
    | registryUnavailable fences => exact iff_of_false (inFlight_ne_zero h) id
    | registry info =>
      cases rest with
      | nil => exact passedOver_eq_zero (grouped_filled h info event) owned
      | cons next rest => exact iff_of_true rfl trivial
    | persisted => exact iff_of_true rfl trivial
    | fenceLost fences => exact iff_of_true rfl trivial
    | commitFailed => exact iff_of_true rfl trivial
  | committing assetId events rest =>
    cases answer with
    | registryUnavailable fences => exact iff_of_true rfl trivial
    | registry info => exact iff_of_true rfl trivial
    | persisted => exact passedOver_eq_zero h.2 owned
    | fenceLost fences => exact passedOver_eq_zero h.2 owned
    | commitFailed => exact passedOver_eq_zero h.2 owned

theorem flusher_inFlight_eq_zero (ht : t.Filled) :
    t.flusher.inFlight = 0 ↔ ∀ flush, t.flusher ≠ .flushing flush := by
  cases hflusher : t.flusher with
  | waiting => exact iff_of_true rfl fun _ h => by cases h
  | flushing flush => exact iff_of_false (inFlight_ne_zero (ht.flusher hflusher)) fun h => h flush rfl
  | done => exact iff_of_true rfl fun _ h => by cases h

/-- A step drops nothing exactly when no flush ends early in it. -/
theorem Acts.drops_eq_zero {action : PipelineAction} (h : Acts limits t action t') (ht : t.Filled) :
    t.drops action = 0 ↔ FlushesToTheEnd t action := by
  cases h with
  | @flusherResumes answer owned current p flush hflushing _ =>
    have hflush := Flush.drops_eq_zero (ht.flusher hflushing) owned answer
    unfold PipelineTasks.drops FlushesToTheEnd
    dsimp only
    rw [hflushing]
    refine hflush.trans ⟨?_, fun hall => hall current rfl⟩
    rintro hgoes flush ⟨⟩
    exact hgoes
  | flusherCancelled => exact flusher_inFlight_eq_zero ht
  | stopResumes hstops _ =>
    exact Flush.drops_eq_zero (ht.stops (by simp [hstops])) _ _
  | stopGoesOn hstops _ _ =>
    exact Flush.drops_eq_zero (ht.stops (by simp [hstops])) _ _
  | stopCancelled hstops =>
    exact iff_of_false (inFlight_ne_zero (ht.stops (by simp [hstops]))) id
  | _ => exact iff_of_true rfl trivial

/-- What is accepted is accounted for. -/
theorem Conserves.conserved_iff {dropped : Multiset CandleEvent} (h : Conserves t t' dropped)
    (ht : Conserved t) : Conserved t' ↔ dropped = 0 := by
  obtain ⟨added, haccepted, hbalance⟩ := h.balance
  unfold Conserved at ht ⊢
  rw [haccepted, ht, ← hbalance]
  exact add_eq_left

theorem accounted_run (hrun : PipelineRun limits FlushesToTheEnd t) :
    Conserved t ∧ t.pipeline.Counts := by
  induction hrun with
  | refl => exact ⟨rfl, ⟨rfl, rfl, rfl, rfl, rfl, rfl, rfl⟩⟩
  | tail hbefore hstep ih =>
    obtain ⟨action, hends, hacts⟩ := hstep
    have hdrops := (hacts.drops_eq_zero (filled_run hbefore)).mpr hends
    exact ⟨(hacts.conserves.conserved_iff ih.1).mpr hdrops, hacts.conserves.counts ih.2⟩

/-- As long as no flush ends early, every accepted event is queued, in flight or counted in one
way. The next step keeps this so exactly when no flush ends early in it. -/
theorem accepted_conserved (hrun : PipelineRun limits FlushesToTheEnd t) :
    Conserved t ∧ t.pipeline.Counts ∧
      ∀ action t', Acts limits t action t' → (Conserved t' ↔ FlushesToTheEnd t action) := by
  obtain ⟨hconserved, hcounts⟩ := accounted_run hrun
  refine ⟨hconserved, hcounts, fun action t' hacts => ?_⟩
  exact (hacts.conserves.conserved_iff hconserved).trans (hacts.drops_eq_zero (filled_run hrun))

/-- Two events that the flusher has taken. -/
theorem accepted_conserved_two : Conserved (roomFor 0) ∧ (roomFor 0).pipeline.Counts :=
  have hconserved := accepted_conserved (roomFor_run (fun _ _ => trivial) (fun _ => trivial) 0)
  ⟨hconserved.1, hconserved.2.1⟩

/-- The registry has answered for the first of the two events. -/
def oneResolved : PipelineTasks :=
  { roomFor 0 with
    flusher := .flushing (.resolving [(1, [minuteEvent "ETHUSDT"])] (minuteEvent "ADAUSDT") []) }

/-- The shard is fenced before the first of the two groups, and the second one is not counted. -/
def passedOverGroup : PipelineTasks :=
  { roomFor 0 with
    pipeline := (roomFor 0).pipeline.discarding [minuteEvent "ETHUSDT"]
    flusher := .waiting }

theorem passed_over_group : PipelineRun twoPlaces (fun _ _ => True) passedOverGroup ∧
    passedOverGroup.inFlight = 0 ∧ passedOverGroup.pipeline.books.accepted.card = 2 ∧
    passedOverGroup.pipeline.accounted.card = 1 ∧ ¬ Conserved passedOverGroup := by
  have hrun : PipelineRun twoPlaces (fun _ _ => True) (roomFor 0) :=
    roomFor_run (fun _ _ => trivial) (fun _ => trivial) 0
  have hfirst : Acts twoPlaces (roomFor 0) (.flusherResumes (.registry (some (1, true))) true)
      oneResolved :=
    @Acts.flusherResumes twoPlaces (roomFor 0) _ true
      (.resolving [] (minuteEvent "ETHUSDT") [minuteEvent "ADAUSDT"]) _ _ rfl rfl
  have hsecond : Acts twoPlaces oneResolved (.flusherResumes (.registry (some (2, true))) false)
      passedOverGroup :=
    @Acts.flusherResumes twoPlaces oneResolved _ false
      (.resolving [(1, [minuteEvent "ETHUSDT"])] (minuteEvent "ADAUSDT") []) _ _ rfl rfl
  refine ⟨(hrun.tail ⟨_, trivial, hfirst⟩).tail ⟨_, trivial, hsecond⟩, rfl, rfl, rfl, ?_⟩
  intro hconserved
  have hcard : 2 = 1 := congrArg Multiset.card hconserved
  cases hcard

end Quantive.WsSharding
