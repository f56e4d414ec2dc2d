import Quantive.WsSharding.Pipeline

/-!
# The queue and its counters

The counters of the assets always agree with the queue. A `put` that had to wait for room checks
neither the limit of its asset nor whether the pipeline still runs when it finds room at last: the
limit holds, and a fenced queue stays empty, as long as no such `put` lands beyond them.
-/

namespace Quantive.WsSharding

variable {limits : PipelineLimits} {p : Pipeline} {t t' : PipelineTasks}

/-- The queued events of a symbol. -/
def queued (queue : List CandleEvent) (symbol : String) : ℕ :=
  queue.countP fun e => e.symbol = symbol

/-- A suspended `put` lands in a pipeline that was not fenced, below the limit of its asset. -/
def LandsWithRoom (limits : PipelineLimits) (t : PipelineTasks) : PipelineAction → Prop
  | .land event => t.pipeline.fenced = false ∧
      t.pipeline.pendingPerAsset event.symbol < limits.maxPendingPerAsset
  | _ => True

structure Pipeline.QueueBooked (limits : PipelineLimits) (p : Pipeline) : Prop where
  counted : ∀ symbol, p.pendingPerAsset symbol = queued p.queue symbol
  bounded : ∀ symbol, p.pendingPerAsset symbol ≤ limits.maxPendingPerAsset
  fenced : p.fenced = true → p.isRunning = false ∧ p.queue = []

theorem Pipeline.QueueBooked.started : Pipeline.started.QueueBooked limits where
  counted _ := rfl
  bounded _ := Nat.zero_le _
  fenced h := by cases h

/-! ### Each function -/

theorem queued_append (queue rest : List CandleEvent) (symbol : String) :
    queued (queue ++ rest) symbol = queued queue symbol + queued rest symbol :=
  List.countP_append

theorem queued_singleton (event : CandleEvent) (symbol : String) :
    queued [event] symbol = if event.symbol = symbol then 1 else 0 := by
  simp [queued, List.countP_singleton]

theorem put_pending (event : CandleEvent) (symbol : String) :
    (p.put event).pendingPerAsset symbol =
      p.pendingPerAsset symbol + if event.symbol = symbol then 1 else 0 := by
  by_cases h : event.symbol = symbol
  · subst h
    simp [Pipeline.put]
  · simp [Pipeline.put, Function.update_of_ne (Ne.symm h), h]

theorem put_queued (event : CandleEvent) (symbol : String) :
    queued (p.put event).queue symbol =
      queued p.queue symbol + if event.symbol = symbol then 1 else 0 := by
  rw [← queued_singleton]
  exact queued_append _ _ _

/-- A `put` keeps the books exactly when there is room for it. -/
theorem Pipeline.QueueBooked.put_iff (h : p.QueueBooked limits) (event : CandleEvent) :
    (p.put event).QueueBooked limits ↔
      p.fenced = false ∧ p.pendingPerAsset event.symbol < limits.maxPendingPerAsset := by
  constructor
  · intro hput
    constructor
    · by_contra hfenced
      have hempty := (hput.fenced (Bool.eq_true_of_not_eq_false hfenced)).2
      change p.queue ++ [event] = [] at hempty
      simp at hempty
    · have hbound := hput.bounded event.symbol
      rw [put_pending, if_pos rfl] at hbound
      omega
  · rintro ⟨hfenced, hroom⟩
    constructor
    · intro symbol
      rw [put_pending, put_queued, h.counted]
    · intro symbol
      rw [put_pending]
      have hbound := h.bounded symbol
      split
      · rename_i hsymbol
        subst hsymbol
        omega
      · omega
    · intro hput
      change p.fenced = true at hput
      rw [hfenced] at hput
      cases hput

/-- What every function but a `put` that waited does to the books of the queue. -/
structure Pipeline.Keeps (limits : PipelineLimits) (p p' : Pipeline) : Prop where
  booked : p.QueueBooked limits → p'.QueueBooked limits
  fenced : p.fenced = true → p'.fenced = true

theorem Pipeline.Keeps.refl (p : Pipeline) : p.Keeps limits p := ⟨id, id⟩

theorem Pipeline.Keeps.trans {p₁ p₂ p₃ : Pipeline} (h₁ : p₁.Keeps limits p₂)
    (h₂ : p₂.Keeps limits p₃) : p₁.Keeps limits p₃ :=
  ⟨fun h => h₂.booked (h₁.booked h), fun h => h₂.fenced (h₁.fenced h)⟩

/-- A change of anything but the queue. -/
theorem Pipeline.Keeps.of_same {p' : Pipeline} (hqueue : p'.queue = p.queue)
    (hpending : p'.pendingPerAsset = p.pendingPerAsset) (hfenced : p'.fenced = p.fenced)
    (hrunning : p.isRunning = false → p'.isRunning = false) : p.Keeps limits p' := by
  refine ⟨fun h => ⟨fun symbol => ?_, fun symbol => ?_, fun hf => ?_⟩, fun hf => hfenced.trans hf⟩
  · rw [hpending, hqueue]
    exact h.counted symbol
  · rw [hpending]
    exact h.bounded symbol
  · rw [hfenced] at hf
    obtain ⟨hstopped, hempty⟩ := h.fenced hf
    exact ⟨hrunning hstopped, hqueue.trans hempty⟩

theorem keeps_enqueueCandle (owned : Bool) (event : CandleEvent) :
    p.Keeps limits (p.enqueueCandle limits owned event).1 := by
  unfold Pipeline.enqueueCandle
  split
  · exact .refl p
  · rename_i hrunning
    split
    · exact .of_same rfl rfl rfl id
    · split
      · exact .of_same rfl rfl rfl id
      · split
        · exact .of_same rfl rfl rfl id
        · rename_i hroom
          split
          · exact .refl p
          · refine ⟨fun h => (h.put_iff event).mpr ⟨?_, by omega⟩, id⟩
            by_contra hfenced
            have hstopped := (h.fenced (Bool.eq_true_of_not_eq_false hfenced)).1
            simp [hstopped] at hrunning

/-- The counters of a queue, less those of a batch at its head, are those of its rest. -/
theorem foldl_takenFrom (batch rest : List CandleEvent) {pending : String → ℕ}
    (h : ∀ symbol, pending symbol = queued (batch ++ rest) symbol) (symbol : String) :
    batch.foldl takenFrom pending symbol = queued rest symbol := by
  induction batch generalizing pending with
  | nil => exact h symbol
  | cons event batch ih =>
    refine ih fun other => ?_
    have hcount : pending other =
        (if event.symbol = other then 1 else 0) + queued (batch ++ rest) other := by
      rw [h, ← queued_singleton, ← queued_append]
      rfl
    by_cases hsymbol : event.symbol = other
    · subst hsymbol
      rw [if_pos rfl] at hcount
      rw [takenFrom, Function.update_self]
      omega
    · rw [if_neg hsymbol] at hcount
      rw [takenFrom, Function.update_of_ne (Ne.symm hsymbol)]
      omega

theorem keeps_drainBatchItems (maxItems : ℕ) :
    p.Keeps limits (p.drainBatchItems maxItems).1 := by
  refine ⟨fun h => ?_, id⟩
  have hpending : ∀ symbol, (p.queue.take maxItems).foldl takenFrom p.pendingPerAsset symbol =
      queued (p.queue.drop maxItems) symbol := by
    refine fun symbol => foldl_takenFrom _ _ (fun other => ?_) symbol
    rw [List.take_append_drop]
    exact h.counted other
  refine ⟨hpending, fun symbol => ?_, fun hfenced => ?_⟩
  · calc (p.queue.take maxItems).foldl takenFrom p.pendingPerAsset symbol
        = queued (p.queue.drop maxItems) symbol := hpending symbol
      _ ≤ queued p.queue symbol := (List.drop_sublist maxItems p.queue).countP_le
      _ = p.pendingPerAsset symbol := (h.counted symbol).symm
      _ ≤ limits.maxPendingPerAsset := h.bounded symbol
  · obtain ⟨hstopped, hempty⟩ := h.fenced hfenced
    refine ⟨hstopped, ?_⟩
    change p.queue.drop maxItems = []
    rw [hempty, List.drop_nil]

theorem keeps_discard : p.Keeps limits p.discardUncommittedBuffers where
  booked h := ⟨fun _ => rfl, fun _ => Nat.zero_le _, fun hfenced => ⟨(h.fenced hfenced).1, rfl⟩⟩
  fenced := id

theorem keeps_fence : p.Keeps limits p.fence where
  booked _ := ⟨fun _ => rfl, fun _ => Nat.zero_le _, fun _ => ⟨rfl, rfl⟩⟩
  fenced _ := rfl

theorem keeps_fenceIf (fences : Bool) : p.Keeps limits (p.fenceIf fences) := by
  cases fences
  · exact .refl p
  · exact keeps_fence

theorem keeps_resolved (info : Option (ℕ × Bool)) (event : CandleEvent) :
    p.Keeps limits (p.resolved info event) := by
  unfold Pipeline.resolved
  split
  · exact .of_same rfl rfl rfl id
  · exact .of_same rfl rfl rfl id
  · exact .refl p

theorem keeps_nextGroup (owned : Bool) (groups : List (ℕ × List CandleEvent)) :
    p.Keeps limits (p.nextGroup owned groups).1 := by
  cases groups with
  | nil => exact .refl p
  | cons group rest => cases owned <;> exact .of_same rfl rfl rfl id

theorem keeps_resume (owned : Bool) (flush : Flush) (answer : FlushAnswer) :
    p.Keeps limits (flush.resume owned p answer).1 := by
  unfold Flush.resume
  split
  · have herror : p.Keeps limits p.registryError := .of_same rfl rfl rfl id
    exact herror.trans (keeps_fenceIf _)
  · exact keeps_resolved _ _
  · exact (keeps_resolved _ _).trans (keeps_nextGroup _ _)
  · rename_i events rest
    have hcommit : p.Keeps limits (p.recordFlushComplete events) := .of_same rfl rfl rfl id
    exact hcommit.trans (keeps_nextGroup _ _)
  · rename_i events rest fences
    have herror : p.Keeps limits (p.commitError events) := .of_same rfl rfl rfl id
    exact (herror.trans (keeps_fenceIf fences)).trans (keeps_nextGroup _ _)
  · rename_i events rest
    have herror : p.Keeps limits (p.commitError events) := .of_same rfl rfl rfl id
    exact herror.trans (keeps_nextGroup _ _)
  · exact .refl p

theorem keeps_processAndFlushBatch (owned : Bool) (batch : List CandleEvent) :
    p.Keeps limits (p.processAndFlushBatch owned batch).1 := by
  cases batch with
  | nil => exact .refl p
  | cons event rest => cases owned <;> exact .of_same rfl rfl rfl id

theorem keeps_batch (p : Pipeline) (maxItems : ℕ) (owned : Bool) :
    p.Keeps limits ((p.drainBatchItems maxItems).1.processAndFlushBatch owned
      (p.drainBatchItems maxItems).2).1 :=
  (keeps_drainBatchItems maxItems).trans (keeps_processAndFlushBatch owned _)

theorem keeps_drainAndFlush (p : Pipeline) (owned : Bool) :
    p.Keeps limits (p.drainAndFlush limits owned).1 := by
  induction p using Pipeline.drainAndFlush.induct limits owned with
  | case1 p hempty =>
    rw [Pipeline.drainAndFlush, if_pos hempty]
    exact keeps_drainBatchItems _
  | case2 p hbatch p' flush hflush =>
    have hnext : p.Keeps limits _ := keeps_batch p limits.batchSize owned
    rw [hflush] at hnext
    rw [drainAndFlush_flushing hbatch hflush]
    exact hnext
  | case3 p hbatch p' hflush ih =>
    have hnext : p.Keeps limits _ := keeps_batch p limits.batchSize owned
    rw [hflush] at hnext
    rw [drainAndFlush_loop hbatch hflush]
    exact hnext.trans ih

theorem keeps_wake (owned : Bool) : p.Keeps limits (p.wake limits owned).1 := by
  unfold Pipeline.wake
  split
  · exact keeps_batch p limits.batchSize owned
  · exact .refl p

theorem keeps_finishStop (owned flush : Bool) :
    p.Keeps limits (p.finishStop limits owned flush).1 := by
  have hjoined : p.Keeps limits { p with flusherTask := false } := .of_same rfl rfl rfl id
  unfold Pipeline.finishStop
  cases flush
  · exact hjoined.trans keeps_discard
  · exact hjoined.trans (keeps_drainAndFlush _ owned)

/-! ### Runs -/

/-- A step keeps the books of the queue if a `put` that waited lands with room. -/
theorem Acts.keeps {action : PipelineAction} (h : Acts limits t action t')
    (hroom : LandsWithRoom limits t action) : t.pipeline.Keeps limits t'.pipeline := by
  cases h with
  | @enqueue event owned p accepted hcall =>
    have hkeeps : t.pipeline.Keeps limits _ := keeps_enqueueCandle owned event
    rw [hcall] at hkeeps
    exact hkeeps
  | @suspend event owned p hcall =>
    have hkeeps : t.pipeline.Keeps limits _ := keeps_enqueueCandle owned event
    rw [hcall] at hkeeps
    exact hkeeps
  | land => exact ⟨fun hbooked => (hbooked.put_iff _).mpr hroom, id⟩
  | @giveUp _ _ _ timeout _ =>
    cases timeout
    · exact .refl _
    · exact .of_same rfl rfl rfl id
  | fence => exact keeps_fence
  | @wake owned p flush _ hwake =>
    have hkeeps : t.pipeline.Keeps limits _ := keeps_wake owned
    rw [hwake] at hkeeps
    exact hkeeps
  | @flusherResumes answer owned current p flush _ hresume =>
    have hkeeps : t.pipeline.Keeps limits _ := keeps_resume owned current answer
    rw [hresume] at hkeeps
    exact hkeeps
  | flusherCancelled => exact .refl _
  | stopAgain => exact .refl _
  | stop => exact .of_same rfl rfl rfl fun _ => rfl
  | @joined _ _ _ flush owned p draining _ _ _ hfinish =>
    have hkeeps : t.pipeline.Keeps limits _ := keeps_finishStop owned flush
    rw [hfinish] at hkeeps
    exact hkeeps
  | joinTimeout => exact .of_same rfl rfl rfl id
  | joinFails => exact .refl _
  | @stopResumes _ _ current answer owned p flush _ hresume =>
    have hkeeps : t.pipeline.Keeps limits _ := keeps_resume owned current answer
    rw [hresume] at hkeeps
    exact hkeeps
  | @stopGoesOn _ _ current answer owned p p' flush _ hresume hloop =>
    have hkeeps : t.pipeline.Keeps limits _ := keeps_resume owned current answer
    rw [hresume] at hkeeps
    have hdrained := hkeeps.trans (keeps_drainAndFlush p owned)
    rw [hloop] at hdrained
    exact hdrained
  | stopCancelled => exact .refl _

theorem keeps_run
    (hrun : Relation.ReflTransGen (PipelineStep limits (LandsWithRoom limits)) t t') :
    t.pipeline.Keeps limits t'.pipeline := by
  induction hrun with
  | refl => exact .refl _
  | tail _ hstep ih =>
    obtain ⟨action, hroom, hacts⟩ := hstep
    exact ih.trans (hacts.keeps hroom)

/-- As long as every `put` that waited lands below the limit of its asset and before a fence, the
counters are the queued events, the limit holds, and a fenced queue is and stays empty. The next
such `put` keeps this so exactly when it lands likewise. -/
theorem queue_accounted (hrun : PipelineRun limits (LandsWithRoom limits) t) :
    (∀ symbol, t.pipeline.pendingPerAsset symbol = queued t.pipeline.queue symbol ∧
      t.pipeline.pendingPerAsset symbol ≤ limits.maxPendingPerAsset) ∧
    (∀ fenced, Acts limits t .fence fenced → ∀ later, Relation.ReflTransGen
      (PipelineStep limits (LandsWithRoom limits)) fenced later → later.pipeline.queue = []) ∧
    ∀ event landed, Acts limits t (.land event) landed →
      (landed.pipeline.QueueBooked limits ↔ LandsWithRoom limits t (.land event)) := by
  have hbooked := (keeps_run hrun).booked .started
  refine ⟨fun symbol => ⟨hbooked.counted symbol, hbooked.bounded symbol⟩, ?_, ?_⟩
  · intro fenced hfence later hlater
    have hkeeps := (hfence.keeps trivial).trans (keeps_run hlater)
    have hfenced : fenced.pipeline.fenced = true := by
      cases hfence
      rfl
    exact ((hkeeps.booked hbooked).fenced ((keeps_run hlater).fenced hfenced)).2
  · intro event landed hland
    cases hland
    exact hbooked.put_iff event

/-! ### A full queue -/

def twoPlaces : PipelineLimits := ⟨2, 2, 1⟩

def twoQueued : PipelineTasks :=
  { PipelineTasks.started with
    pipeline := (Pipeline.started.put (minuteEvent "ETHUSDT")).put (minuteEvent "ADAUSDT") }

/-- Two queued events and some calls for one asset that wait. -/
def waitingFor (calls : ℕ) : PipelineTasks :=
  { twoQueued with suspended := List.replicate calls (minuteEvent "BTCUSDT") }

theorem waitingFor_run {allowed : PipelineTasks → PipelineAction → Prop}
    (h : ∀ t event, allowed t (.enqueue event true)) (calls : ℕ) :
    PipelineRun twoPlaces allowed (waitingFor calls) := by
  induction calls with
  | zero =>
    have hfirst : Acts twoPlaces .started (.enqueue (minuteEvent "ETHUSDT") true) _ :=
      .enqueued rfl (minuteEvent_valid _) Nat.one_pos rfl
    have hsecond : Acts twoPlaces
        { PipelineTasks.started with pipeline := Pipeline.started.put (minuteEvent "ETHUSDT") }
        (.enqueue (minuteEvent "ADAUSDT") true) _ :=
      .enqueued rfl (minuteEvent_valid _) Nat.one_pos rfl
    exact (Relation.ReflTransGen.single ⟨_, h _ _, hfirst⟩).tail ⟨_, h _ _, hsecond⟩
  | succ calls ih =>
    have hcall : Acts twoPlaces (waitingFor calls) (.enqueue (minuteEvent "BTCUSDT") true)
        { waitingFor calls with
          suspended := List.replicate calls (minuteEvent "BTCUSDT") ++ [minuteEvent "BTCUSDT"] } :=
      .suspended rfl (minuteEvent_valid _) Nat.one_pos rfl
    have hstep := ih.tail ⟨_, h _ _, hcall⟩
    rw [← List.replicate_succ'] at hstep
    exact hstep

/-- The flusher takes both queued events, and the calls for the asset are left. -/
def roomFor (calls : ℕ) : PipelineTasks :=
  { waitingFor calls with
    pipeline := (twoQueued.pipeline.drainBatchItems 2).1
    flusher := .flushing (.resolving [] (minuteEvent "ETHUSDT") [minuteEvent "ADAUSDT"]) }

theorem roomFor_run {allowed : PipelineTasks → PipelineAction → Prop}
    (h : ∀ t event, allowed t (.enqueue event true)) (hwake : ∀ t, allowed t (.wake true))
    (calls : ℕ) : PipelineRun twoPlaces allowed (roomFor calls) := by
  have hacts : Acts twoPlaces (waitingFor calls) (.wake true) (roomFor calls) := .wake rfl rfl
  exact (waitingFor_run h calls).tail ⟨_, hwake _, hacts⟩

/-- One call that lands with room. -/
theorem queue_accounted_one_waited :
    ((roomFor 1).pipeline.put (minuteEvent "BTCUSDT")).pendingPerAsset "BTCUSDT" =
        queued ((roomFor 1).pipeline.put (minuteEvent "BTCUSDT")).queue "BTCUSDT" ∧
      ((roomFor 1).pipeline.put (minuteEvent "BTCUSDT")).pendingPerAsset "BTCUSDT" ≤ 1 := by
  have hroom : LandsWithRoom twoPlaces (roomFor 1) (.land (minuteEvent "BTCUSDT")) :=
    ⟨rfl, by decide⟩
  have hland : Acts twoPlaces (roomFor 1) (.land (minuteEvent "BTCUSDT")) _ :=
    @Acts.land twoPlaces (roomFor 1) [] [] (minuteEvent "BTCUSDT") rfl rfl
  exact (queue_accounted ((roomFor_run (fun _ _ => trivial) (fun _ => trivial) 1).tail
    ⟨_, hroom, hland⟩)).1 "BTCUSDT"

/-- Two calls for an asset with one place land both, and a call lands after the fence. -/
theorem late_puts_land :
    (∃ t, PipelineRun twoPlaces (fun _ _ => True) t ∧ t.suspended = [] ∧
      t.pipeline.pendingPerAsset "BTCUSDT" = twoPlaces.maxPendingPerAsset + 1) ∧
    ∃ t fenced later, PipelineRun twoPlaces (fun _ _ => True) t ∧ Acts twoPlaces t .fence fenced ∧
      Relation.ReflTransGen (PipelineStep twoPlaces fun _ _ => True) fenced later ∧
      later.suspended = [] ∧ later.pipeline.queue = [minuteEvent "BTCUSDT"] := by
  constructor
  · have hfirst : Acts twoPlaces (roomFor 2) (.land (minuteEvent "BTCUSDT"))
        { roomFor 1 with pipeline := (roomFor 1).pipeline.put (minuteEvent "BTCUSDT") } :=
      @Acts.land twoPlaces (roomFor 2) [] [minuteEvent "BTCUSDT"] (minuteEvent "BTCUSDT") rfl rfl
    have hsecond : Acts twoPlaces
        { roomFor 1 with pipeline := (roomFor 1).pipeline.put (minuteEvent "BTCUSDT") }
        (.land (minuteEvent "BTCUSDT")) _ := @Acts.land twoPlaces _ [] [] _ rfl rfl
    have hrun : PipelineRun twoPlaces (fun _ _ => True) (roomFor 2) :=
      roomFor_run (fun _ _ => trivial) (fun _ => trivial) 2
    exact ⟨_, (hrun.tail ⟨_, trivial, hfirst⟩).tail ⟨_, trivial, hsecond⟩, rfl, rfl⟩
  · have hfence : Acts twoPlaces (waitingFor 1) .fence
        { waitingFor 1 with pipeline := (waitingFor 1).pipeline.fence } := .fence
    have hland : Acts twoPlaces { waitingFor 1 with pipeline := (waitingFor 1).pipeline.fence }
        (.land (minuteEvent "BTCUSDT")) _ := @Acts.land twoPlaces _ [] [] _ rfl rfl
    exact ⟨_, _, _, waitingFor_run (fun _ _ => trivial) 1, hfence,
      .single ⟨_, trivial, hland⟩, rfl, rfl⟩

end Quantive.WsSharding
