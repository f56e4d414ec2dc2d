import Mathlib.Data.Multiset.AddSub
import Mathlib.Data.Multiset.Bind
import Mathlib.Logic.Relation
import Quantive.WsSharding.Events

/-!
# The pipeline

`BoundedLiveIngestionPipeline` (`ws_sharding/pipeline.py`) at its await points. What runs between
two of them is one function here, and `Acts` lets the tasks of the pipeline take turns: the calls
of `enqueue_candle`, the flusher, `fence` and the calls of `stop`. An await that does not suspend
is followed by its own next turn. The flush trigger is left out, as the flusher also wakes by its
timer.
-/

namespace Quantive.WsSharding
open Quantive.Candles

structure PipelineLimits where
  queueMaxsize : ℕ
  batchSize : ℕ
  maxPendingPerAsset : ℕ

/-- The counters of `metrics.py`. -/
structure PipelineMetrics where
  candlesReceived : ℕ := 0
  candlesPersisted : ℕ := 0
  duplicateCandles : ℕ := 0
  rejectedCandles : ℕ := 0
  unmappedSymbolRejections : ℕ := 0
  inactiveAssetRejections : ℕ := 0
  batchesFlushed : ℕ := 0
  persistenceErrors : ℕ := 0
  fencedEventsDiscarded : ℕ := 0
  queueOverflowCount : ℕ := 0
  assetOverflowCount : ℕ := 0

/-- Which events the counters count. The code does not keep this, and no step reads it. -/
structure Bookings where
  accepted : Multiset CandleEvent := 0
  persisted : Multiset CandleEvent := 0
  duplicate : Multiset CandleEvent := 0
  unmapped : Multiset CandleEvent := 0
  inactive : Multiset CandleEvent := 0
  discarded : Multiset CandleEvent := 0
  failed : List (Multiset CandleEvent) := []
  /-- Events that were refused because the shard is fenced; they count as discarded. -/
  refused : ℕ := 0
  /-- Batches given up because the registry was unavailable; they count as errors. -/
  unavailable : ℕ := 0

structure Pipeline where
  isRunning : Bool
  queue : List CandleEvent
  pendingPerAsset : String → ℕ
  metrics : PipelineMetrics
  /-- `_flusher_task` is not `None`. -/
  flusherTask : Bool
  /-- The flusher task was cancelled; it learns of it at an await. -/
  flusherCancelled : Bool
  /-- `fence` was called; not a field of the code. -/
  fenced : Bool
  books : Bookings

/-- What `start` leaves of a new pipeline. -/
def Pipeline.started : Pipeline where
  isRunning := true
  queue := []
  pendingPerAsset _ := 0
  metrics := {}
  flusherTask := true
  flusherCancelled := false
  fenced := false
  books := {}

/-! ### The queue -/

def PipelineLimits.full (limits : PipelineLimits) (queue : List CandleEvent) : Bool :=
  0 < limits.queueMaxsize && limits.queueMaxsize ≤ queue.length

/-- The event is in the queue and counted; nothing is awaited in between. -/
def Pipeline.put (event : CandleEvent) (p : Pipeline) : Pipeline :=
  { p with
    queue := p.queue ++ [event]
    pendingPerAsset := Function.update p.pendingPerAsset event.symbol
      (p.pendingPerAsset event.symbol + 1)
    metrics := { p.metrics with candlesReceived := p.metrics.candlesReceived + 1 }
    books := { p.books with accepted := p.books.accepted + {event} } }

inductive Enqueued
  | returned (accepted : Bool)
  | suspended

/-- `enqueue_candle` up to its await; `owned` is what the fencing check answers. -/
def Pipeline.enqueueCandle (limits : PipelineLimits) (owned : Bool) (event : CandleEvent)
    (p : Pipeline) : Pipeline × Enqueued :=
  if !p.isRunning then (p, .returned false)
  else if !validateCandlePayload event then
    ({ p with metrics := { p.metrics with rejectedCandles := p.metrics.rejectedCandles + 1 } },
      .returned false)
  else if !owned then
    ({ p with
        metrics := { p.metrics with
          fencedEventsDiscarded := p.metrics.fencedEventsDiscarded + 1 }
        books := { p.books with refused := p.books.refused + 1 } },
      .returned false)
  else if limits.maxPendingPerAsset ≤ p.pendingPerAsset event.symbol then
    ({ p with metrics := { p.metrics with assetOverflowCount := p.metrics.assetOverflowCount + 1 } },
      .returned false)
  else if limits.full p.queue then (p, .suspended)
  else (p.put event, .returned true)

/-- A suspended `put` times out. -/
def Pipeline.queueOverflow (p : Pipeline) : Pipeline :=
  { p with metrics := { p.metrics with queueOverflowCount := p.metrics.queueOverflowCount + 1 } }

/-- Events that are counted as discarded. -/
def Pipeline.discarding (events : Multiset CandleEvent) (p : Pipeline) : Pipeline :=
  { p with
    metrics := { p.metrics with
      fencedEventsDiscarded := p.metrics.fencedEventsDiscarded + events.card }
    books := { p.books with discarded := p.books.discarded + events } }

def Pipeline.discardUncommittedBuffers (p : Pipeline) : Pipeline :=
  { p.discarding p.queue with
    queue := []
    pendingPerAsset := fun _ => 0 }

/-- `fence`; the cancellation of a task that is done has no effect. -/
def Pipeline.fence (p : Pipeline) : Pipeline :=
  Pipeline.discardUncommittedBuffers
    { p with isRunning := false, flusherCancelled := true, fenced := true }

/-- One event leaves the counters; a count that reaches zero is removed. -/
def takenFrom (pending : String → ℕ) (event : CandleEvent) : String → ℕ :=
  Function.update pending event.symbol (pending event.symbol - 1)

def Pipeline.drainBatchItems (maxItems : ℕ) (p : Pipeline) : Pipeline × List CandleEvent :=
  let batch := p.queue.take maxItems
  ({ p with
      queue := p.queue.drop maxItems
      pendingPerAsset := batch.foldl takenFrom p.pendingPerAsset },
    batch)

/-! ### A flush -/

/-- Where `_process_and_flush_batch` waits: for the registry, or for the commit of a group. -/
inductive Flush
  | resolving (groups : List (ℕ × List CandleEvent)) (event : CandleEvent) (rest : List CandleEvent)
  | committing (assetId : ℕ) (events : List CandleEvent) (rest : List (ℕ × List CandleEvent))

/-- What an await of a flush returns. `fences` tells whether the callback of a fatal error fences
this pipeline, as it does when there is no callback. -/
inductive FlushAnswer
  | registry (info : Option (ℕ × Bool))
  | registryUnavailable (fences : Bool)
  | persisted
  | fenceLost (fences : Bool)
  | commitFailed

/-- The loop over the asset groups, up to the commit of the first one. -/
def Pipeline.nextGroup (owned : Bool) (p : Pipeline) :
    List (ℕ × List CandleEvent) → Pipeline × Option Flush
  | [] => (p, none)
  | (assetId, events) :: rest =>
    if owned then
      let (kept, duplicates) := dedupedEvents events
      ({ p with
          metrics := { p.metrics with
            duplicateCandles := p.metrics.duplicateCandles + duplicates.length }
          books := { p.books with duplicate := p.books.duplicate + duplicates } },
        some (.committing assetId kept rest))
    else (p.discarding events, none)

/-- The groups after the registry has answered for an event. -/
def grouped (info : Option (ℕ × Bool)) (event : CandleEvent)
    (groups : List (ℕ × List CandleEvent)) : List (ℕ × List CandleEvent) :=
  match info with
  | some (assetId, true) => appendTo assetId event groups
  | _ => groups

/-- The counters after the registry has answered for an event. -/
def Pipeline.resolved (info : Option (ℕ × Bool)) (event : CandleEvent) (p : Pipeline) : Pipeline :=
  match info with
  | none => { p with
      metrics := { p.metrics with
        unmappedSymbolRejections := p.metrics.unmappedSymbolRejections + 1 }
      books := { p.books with unmapped := p.books.unmapped + {event} } }
  | some (_, false) => { p with
      metrics := { p.metrics with
        inactiveAssetRejections := p.metrics.inactiveAssetRejections + 1 }
      books := { p.books with inactive := p.books.inactive + {event} } }
  | some (_, true) => p

/-- `record_flush_complete`. -/
def Pipeline.recordFlushComplete (events : List CandleEvent) (p : Pipeline) : Pipeline :=
  { p with
    metrics := { p.metrics with
      candlesPersisted := p.metrics.candlesPersisted + events.length
      batchesFlushed := p.metrics.batchesFlushed + 1 }
    books := { p.books with persisted := p.books.persisted + events } }

def Pipeline.commitError (events : List CandleEvent) (p : Pipeline) : Pipeline :=
  { p with
    metrics := { p.metrics with persistenceErrors := p.metrics.persistenceErrors + 1 }
    books := { p.books with failed := (events : Multiset CandleEvent) :: p.books.failed } }

def Pipeline.registryError (p : Pipeline) : Pipeline :=
  { p with
    metrics := { p.metrics with persistenceErrors := p.metrics.persistenceErrors + 1 }
    books := { p.books with unavailable := p.books.unavailable + 1 } }

def Pipeline.fenceIf (fences : Bool) (p : Pipeline) : Pipeline := if fences then p.fence else p

/-- From one await of a flush to the next; `none` when it returns. -/
def Flush.resume (owned : Bool) (p : Pipeline) : Flush → FlushAnswer → Pipeline × Option Flush
  | .resolving _ _ _, .registryUnavailable fences => (p.registryError.fenceIf fences, none)
  | .resolving groups event (next :: rest), .registry info =>
    (p.resolved info event, some (.resolving (grouped info event groups) next rest))
  | .resolving groups event [], .registry info =>
    (p.resolved info event).nextGroup owned (grouped info event groups)
  | .committing _ events rest, .persisted => (p.recordFlushComplete events).nextGroup owned rest
  | .committing _ events rest, .fenceLost fences =>
    ((p.commitError events).fenceIf fences).nextGroup owned rest
  | .committing _ events rest, .commitFailed => (p.commitError events).nextGroup owned rest
  -- an answer that this await does not give
  | flush, _ => (p, some flush)

/-- `_process_and_flush_batch` up to its first await. -/
def Pipeline.processAndFlushBatch (owned : Bool) (p : Pipeline) :
    List CandleEvent → Pipeline × Option Flush
  | [] => (p, none)
  | event :: rest =>
    if owned then (p, some (.resolving [] event rest))
    else (p.discarding (event :: rest : List CandleEvent), none)

theorem processAndFlushBatch_queue (owned : Bool) (p : Pipeline) (batch : List CandleEvent) :
    (p.processAndFlushBatch owned batch).1.queue = p.queue := by
  cases batch with
  | nil => rfl
  | cons event rest => cases owned <;> rfl

/-- `drain_and_flush`, from the head of its loop to the next await. -/
def Pipeline.drainAndFlush (limits : PipelineLimits) (owned : Bool) (p : Pipeline) :
    Pipeline × Option Flush :=
  if (p.drainBatchItems limits.batchSize).2 = [] then ((p.drainBatchItems limits.batchSize).1, none)
  else
    match _hflush : (p.drainBatchItems limits.batchSize).1.processAndFlushBatch owned
        (p.drainBatchItems limits.batchSize).2 with
    | (p', some flush) => (p', some flush)
    | (p', none) => p'.drainAndFlush limits owned
termination_by p.queue.length
decreasing_by
  rename_i hbatch
  have hqueue := processAndFlushBatch_queue owned (p.drainBatchItems limits.batchSize).1
    (p.drainBatchItems limits.batchSize).2
  rw [_hflush] at hqueue
  change p'.queue = p.queue.drop limits.batchSize at hqueue
  change ¬ p.queue.take limits.batchSize = [] at hbatch
  rw [hqueue, List.length_drop]
  have hlength : 0 < (p.queue.take limits.batchSize).length := List.length_pos_iff.mpr hbatch
  rw [List.length_take] at hlength
  omega

theorem drainAndFlush_flushing {limits : PipelineLimits} {owned : Bool} {p p' : Pipeline}
    {flush : Flush} (hbatch : ¬ (p.drainBatchItems limits.batchSize).2 = [])
    (hflush : (p.drainBatchItems limits.batchSize).1.processAndFlushBatch owned
      (p.drainBatchItems limits.batchSize).2 = (p', some flush)) :
    p.drainAndFlush limits owned = (p', some flush) := by
  rw [Pipeline.drainAndFlush, if_neg hbatch]
  split
  · rename_i heq
    rw [← heq, hflush]
  · rename_i heq
    rw [hflush] at heq
    cases heq

theorem drainAndFlush_loop {limits : PipelineLimits} {owned : Bool} {p p' : Pipeline}
    (hbatch : ¬ (p.drainBatchItems limits.batchSize).2 = [])
    (hflush : (p.drainBatchItems limits.batchSize).1.processAndFlushBatch owned
      (p.drainBatchItems limits.batchSize).2 = (p', none)) :
    p.drainAndFlush limits owned = p'.drainAndFlush limits owned := by
  rw [Pipeline.drainAndFlush, if_neg hbatch]
  split
  · rename_i heq
    rw [hflush] at heq
    cases heq
  · rename_i heq
    rw [hflush] at heq
    cases heq
    rfl

/-! ### The tasks -/

/-- Where `_flusher_loop` waits: for the trigger or the timer, or inside a flush. -/
inductive Flusher
  | waiting
  | flushing (flush : Flush)
  | done

/-- The loop of the flusher after a flush. -/
def Flusher.loop (p : Pipeline) : Option Flush → Flusher
  | some flush => .flushing flush
  | none => if p.isRunning then .waiting else .done

/-- The flusher wakes up. -/
def Pipeline.wake (limits : PipelineLimits) (owned : Bool) (p : Pipeline) : Pipeline × Option Flush :=
  if p.isRunning then
    let (p, batch) := p.drainBatchItems limits.batchSize
    p.processAndFlushBatch owned batch
  else (p, none)

/-- Where a call of `stop` waits: for the flusher to end by itself, for the flusher that it
cancelled, or inside a flush. -/
inductive StopCall
  | joining (flush : Bool)
  | cancelling (flush : Bool)
  | draining (flush : Flush)

structure PipelineTasks where
  pipeline : Pipeline
  /-- The events of the `enqueue_candle` calls that wait for room. -/
  suspended : List CandleEvent
  flusher : Flusher
  stops : List StopCall

def PipelineTasks.started : PipelineTasks := ⟨.started, [], .waiting, []⟩

/-- `stop` once the flusher is done. -/
def Pipeline.finishStop (limits : PipelineLimits) (owned flush : Bool) (p : Pipeline) :
    Pipeline × Option Flush :=
  let p := { p with flusherTask := false }
  if flush then p.drainAndFlush limits owned else (p.discardUncommittedBuffers, none)

def drainingCall (flush : Option Flush) : List StopCall := flush.toList.map .draining

inductive PipelineAction
  | enqueue (event : CandleEvent) (owned : Bool)
  /-- A suspended `put` finds room. -/
  | land (event : CandleEvent)
  /-- A suspended `put` ends by its timeout, or because its task is cancelled. -/
  | giveUp (event : CandleEvent) (timeout : Bool)
  | fence
  | wake (owned : Bool)
  | flusherResumes (answer : FlushAnswer) (owned : Bool)
  /-- The flusher learns at an await that it was cancelled. -/
  | flusherCancelled
  | stop (flush owned : Bool)
  | joined (call : StopCall) (flush owned : Bool)
  | joinTimeout (flush : Bool)
  | stopResumes (flush : Flush) (answer : FlushAnswer) (owned : Bool)
  /-- The task of a `stop` is cancelled inside its flush. -/
  | stopCancelled (flush : Flush)

/-- One task runs from one of its awaits to the next. -/
inductive Acts (limits : PipelineLimits) : PipelineTasks → PipelineAction → PipelineTasks → Prop
  | enqueue {t : PipelineTasks} {event : CandleEvent} {owned : Bool} {p : Pipeline} {accepted : Bool}
      (h : t.pipeline.enqueueCandle limits owned event = (p, .returned accepted)) :
      Acts limits t (.enqueue event owned) { t with pipeline := p }
  | suspend {t : PipelineTasks} {event : CandleEvent} {owned : Bool} {p : Pipeline}
      (h : t.pipeline.enqueueCandle limits owned event = (p, .suspended)) :
      Acts limits t (.enqueue event owned)
        { t with pipeline := p, suspended := t.suspended ++ [event] }
  | land {t : PipelineTasks} {before after : List CandleEvent} {event : CandleEvent}
      (h : t.suspended = before ++ event :: after) (room : limits.full t.pipeline.queue = false) :
      Acts limits t (.land event)
        { t with pipeline := t.pipeline.put event, suspended := before ++ after }
  | giveUp {t : PipelineTasks} {before after : List CandleEvent} {event : CandleEvent} {timeout : Bool}
      (h : t.suspended = before ++ event :: after) :
      Acts limits t (.giveUp event timeout)
        { t with
          pipeline := if timeout then t.pipeline.queueOverflow else t.pipeline
          suspended := before ++ after }
  | fence {t : PipelineTasks} : Acts limits t .fence { t with pipeline := t.pipeline.fence }
  | wake {t : PipelineTasks} {owned : Bool} {p : Pipeline} {flush : Option Flush}
      (h : t.flusher = .waiting) (hwake : t.pipeline.wake limits owned = (p, flush)) :
      Acts limits t (.wake owned) { t with pipeline := p, flusher := .loop p flush }
  | flusherResumes {t : PipelineTasks} {answer : FlushAnswer} {owned : Bool} {current : Flush}
      {p : Pipeline} {flush : Option Flush} (h : t.flusher = .flushing current)
      (hresume : current.resume owned t.pipeline answer = (p, flush)) :
      Acts limits t (.flusherResumes answer owned)
        { t with pipeline := p, flusher := .loop p flush }
  | flusherCancelled {t : PipelineTasks} (h : t.flusher ≠ .done)
      (hcancelled : t.pipeline.flusherCancelled = true) :
      Acts limits t .flusherCancelled { t with flusher := .done }
  | stopAgain {t : PipelineTasks} {flush owned : Bool} (hrunning : t.pipeline.isRunning = false)
      (htask : t.pipeline.flusherTask = false) : Acts limits t (.stop flush owned) t
  -- `_flusher_task` is set from `start` to the end of the first `stop`
  | stop {t : PipelineTasks} {flush owned : Bool} (htask : t.pipeline.flusherTask = true) :
      Acts limits t (.stop flush owned)
        { t with
          pipeline := { t.pipeline with isRunning := false }
          stops := .joining flush :: t.stops }
  | joined {t : PipelineTasks} {before after : List StopCall} {call : StopCall} {flush owned : Bool}
      {p : Pipeline} {draining : Option Flush} (h : t.stops = before ++ call :: after)
      (hcall : call = .joining flush ∨ call = .cancelling flush) (hdone : t.flusher = .done)
      (hfinish : t.pipeline.finishStop limits owned flush = (p, draining)) :
      Acts limits t (.joined call flush owned)
        { t with pipeline := p, stops := before ++ drainingCall draining ++ after }
  | joinTimeout {t : PipelineTasks} {before after : List StopCall} {flush : Bool}
      (h : t.stops = before ++ .joining flush :: after) (htask : t.pipeline.flusherTask = true) :
      Acts limits t (.joinTimeout flush)
        { t with
          pipeline := { t.pipeline with flusherCancelled := true }
          stops := before ++ .cancelling flush :: after }
  -- another `stop` has already set `_flusher_task` to `None`, which has no `cancel`
  | joinFails {t : PipelineTasks} {before after : List StopCall} {flush : Bool}
      (h : t.stops = before ++ .joining flush :: after) (htask : t.pipeline.flusherTask = false) :
      Acts limits t (.joinTimeout flush) { t with stops := before ++ after }
  | stopResumes {t : PipelineTasks} {before after : List StopCall} {current : Flush}
      {answer : FlushAnswer} {owned : Bool} {p : Pipeline} {flush : Flush}
      (h : t.stops = before ++ .draining current :: after)
      (hresume : current.resume owned t.pipeline answer = (p, some flush)) :
      Acts limits t (.stopResumes current answer owned)
        { t with pipeline := p, stops := before ++ .draining flush :: after }
  | stopGoesOn {t : PipelineTasks} {before after : List StopCall} {current : Flush}
      {answer : FlushAnswer} {owned : Bool} {p p' : Pipeline} {flush : Option Flush}
      (h : t.stops = before ++ .draining current :: after)
      (hresume : current.resume owned t.pipeline answer = (p, none))
      (hloop : p.drainAndFlush limits owned = (p', flush)) :
      Acts limits t (.stopResumes current answer owned)
        { t with pipeline := p', stops := before ++ drainingCall flush ++ after }
  | stopCancelled {t : PipelineTasks} {before after : List StopCall} {current : Flush}
      (h : t.stops = before ++ .draining current :: after) :
      Acts limits t (.stopCancelled current) { t with stops := before ++ after }

/-- A step of a run whose actions are all `allowed` where they are taken. -/
def PipelineStep (limits : PipelineLimits) (allowed : PipelineTasks → PipelineAction → Prop)
    (t t' : PipelineTasks) : Prop := ∃ action, allowed t action ∧ Acts limits t action t'

/-- What a run from `start` reaches. -/
def PipelineRun (limits : PipelineLimits) (allowed : PipelineTasks → PipelineAction → Prop) :
    PipelineTasks → Prop := Relation.ReflTransGen (PipelineStep limits allowed) .started

/-! ### Calls of `enqueue_candle` -/

theorem Acts.enqueued {limits : PipelineLimits} {t : PipelineTasks} {event : CandleEvent}
    (hrunning : t.pipeline.isRunning = true) (hvalid : validateCandlePayload event = true)
    (hbelow : t.pipeline.pendingPerAsset event.symbol < limits.maxPendingPerAsset)
    (hroom : limits.full t.pipeline.queue = false) :
    Acts limits t (.enqueue event true) { t with pipeline := t.pipeline.put event } := by
  have hcall : t.pipeline.enqueueCandle limits true event =
      (t.pipeline.put event, .returned true) := by
    simp [Pipeline.enqueueCandle, hrunning, hvalid, hbelow, hroom]
  exact .enqueue hcall

theorem Acts.suspended {limits : PipelineLimits} {t : PipelineTasks} {event : CandleEvent}
    (hrunning : t.pipeline.isRunning = true) (hvalid : validateCandlePayload event = true)
    (hbelow : t.pipeline.pendingPerAsset event.symbol < limits.maxPendingPerAsset)
    (hfull : limits.full t.pipeline.queue = true) :
    Acts limits t (.enqueue event true) { t with suspended := t.suspended ++ [event] } := by
  have hcall : t.pipeline.enqueueCandle limits true event = (t.pipeline, .suspended) := by
    simp [Pipeline.enqueueCandle, hrunning, hvalid, hbelow, hfull]
  exact .suspend hcall

/-- A flat candle of minute 0. -/
def minuteEvent (symbol : String) : CandleEvent :=
  { symbol, timestamp := 0, closeTime := 59999000, isClosed := true
    values := ⟨1, 1, 1, 1, 1⟩, receivedAt := 60000000 }

theorem minuteEvent_valid (symbol : String) : validateCandlePayload (minuteEvent symbol) = true := by
  have hvalid : validateCandlePayload (minuteEvent "") = true := by decide +kernel
  exact hvalid

end Quantive.WsSharding
