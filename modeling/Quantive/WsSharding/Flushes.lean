import Quantive.WsSharding.Pipeline

/-!
# The flushes of a run

A flush that waits has events in each of its groups, so each of its groups counts for something.
-/

namespace Quantive.WsSharding

variable {limits : PipelineLimits} {p p' : Pipeline} {t t' : PipelineTasks}

def FilledGroups (groups : List (ℕ × List CandleEvent)) : Prop := ∀ g ∈ groups, g.2 ≠ []

def Flush.Filled : Flush → Prop
  | .resolving groups _ _ => FilledGroups groups
  | .committing _ events rest => events ≠ [] ∧ FilledGroups rest

/-- Each task that waits inside a flush waits inside a filled one. -/
structure PipelineTasks.Filled (t : PipelineTasks) : Prop where
  flusher : ∀ {flush}, t.flusher = .flushing flush → flush.Filled
  stops : ∀ {flush}, .draining flush ∈ t.stops → flush.Filled

theorem PipelineTasks.Filled.started : PipelineTasks.started.Filled where
  flusher h := by cases h
  stops h := by cases h

/-! ### Each function -/

theorem appendTo_filled {assetId : ℕ} {event : CandleEvent} {groups : List (ℕ × List CandleEvent)}
    (h : FilledGroups groups) : FilledGroups (appendTo assetId event groups) := by
  induction groups with
  | nil => simp [FilledGroups, appendTo]
  | cons group rest ih =>
    obtain ⟨hgroup, hrest⟩ := List.forall_mem_cons.mp h
    unfold appendTo
    split
    · exact List.forall_mem_cons.mpr ⟨by simp, hrest⟩
    · exact List.forall_mem_cons.mpr ⟨hgroup, ih hrest⟩

theorem grouped_filled {groups : List (ℕ × List CandleEvent)} (h : FilledGroups groups)
    (info : Option (ℕ × Bool)) (event : CandleEvent) : FilledGroups (grouped info event groups) := by
  unfold grouped
  split
  · exact appendTo_filled h
  · exact h

/-- The first event of each open time is kept. -/
theorem dedupedEvents_ne_nil {events : List CandleEvent} (h : events ≠ []) :
    (dedupedEvents events).1 ≠ [] := by
  have hsorted : sortedEvents events ≠ [] := by
    rw [← List.length_pos_iff] at h ⊢
    rwa [sortedEvents, List.length_insertionSort]
  unfold dedupedEvents
  cases hevents : sortedEvents events with
  | nil => exact absurd hevents hsorted
  | cons event rest => simp [dedupFrom]

theorem nextGroup_filled {groups : List (ℕ × List CandleEvent)} (h : FilledGroups groups)
    (owned : Bool) (p : Pipeline) : ∀ flush ∈ (p.nextGroup owned groups).2, flush.Filled := by
  cases groups with
  | nil => rintro flush ⟨⟩
  | cons group rest =>
    obtain ⟨hgroup, hrest⟩ := List.forall_mem_cons.mp h
    cases owned with
    | false => rintro flush ⟨⟩
    | true =>
      rintro flush ⟨⟩
      exact ⟨dedupedEvents_ne_nil hgroup, hrest⟩

theorem resume_filled {flush : Flush} (h : flush.Filled) (owned : Bool) (p : Pipeline)
    (answer : FlushAnswer) : ∀ next ∈ (flush.resume owned p answer).2, next.Filled := by
  unfold Flush.resume
  split
  · rintro flush ⟨⟩
  · rintro next ⟨⟩
    exact grouped_filled h _ _
  · exact nextGroup_filled (grouped_filled h _ _) owned _
  · exact nextGroup_filled h.2 owned _
  · exact nextGroup_filled h.2 owned _
  · exact nextGroup_filled h.2 owned _
  · rintro next ⟨⟩
    exact h

theorem processAndFlushBatch_filled (owned : Bool) (p : Pipeline) (batch : List CandleEvent) :
    ∀ flush ∈ (p.processAndFlushBatch owned batch).2, flush.Filled := by
  cases batch with
  | nil => rintro flush ⟨⟩
  | cons event rest =>
    cases owned with
    | false => rintro flush ⟨⟩
    | true =>
      rintro flush ⟨⟩
      exact List.forall_mem_nil _

theorem drainAndFlush_filled (p : Pipeline) (owned : Bool) :
    ∀ flush ∈ (p.drainAndFlush limits owned).2, flush.Filled := by
  induction p using Pipeline.drainAndFlush.induct limits owned with
  | case1 p hempty =>
    rw [Pipeline.drainAndFlush, if_pos hempty]
    rintro flush ⟨⟩
  | case2 p hbatch p' flush hflush =>
    have hfilled := processAndFlushBatch_filled owned (p.drainBatchItems limits.batchSize).1
      (p.drainBatchItems limits.batchSize).2
    rw [hflush] at hfilled
    rw [drainAndFlush_flushing hbatch hflush]
    exact hfilled
  | case3 p hbatch p' hflush ih =>
    rw [drainAndFlush_loop hbatch hflush]
    exact ih

theorem wake_filled (p : Pipeline) (owned : Bool) :
    ∀ flush ∈ (p.wake limits owned).2, flush.Filled := by
  unfold Pipeline.wake
  split
  · exact processAndFlushBatch_filled owned _ _
  · rintro flush ⟨⟩

theorem finishStop_filled (p : Pipeline) (owned flush : Bool) :
    ∀ draining ∈ (p.finishStop limits owned flush).2, draining.Filled := by
  unfold Pipeline.finishStop
  cases flush
  · rintro flush ⟨⟩
  · exact drainAndFlush_filled _ owned

/-! ### Runs -/

theorem loop_flushing {flush : Option Flush} {current : Flush}
    (h : Flusher.loop p flush = .flushing current) : current ∈ flush := by
  cases flush with
  | none =>
    unfold Flusher.loop at h
    cases hrunning : p.isRunning <;> simp [hrunning] at h
  | some flush =>
    cases h
    rfl

theorem mem_drainingCall {flush : Option Flush} {current : Flush}
    (h : .draining current ∈ drainingCall flush) : current ∈ flush := by
  cases flush with
  | none => cases h
  | some flush => simpa [drainingCall, eq_comm] using h

/-- One call of `stop` gives way to others. -/
theorem PipelineTasks.Filled.replaced {before after calls : List StopCall} {call : StopCall}
    (h : t.Filled) (hstops : t.stops = before ++ call :: after)
    (hcalls : ∀ flush, .draining flush ∈ calls → flush.Filled) {flush : Flush}
    (hflush : .draining flush ∈ before ++ (calls ++ after)) : flush.Filled := by
  have hother : ∀ stop, stop ∈ before ∨ stop ∈ after → stop ∈ t.stops := by
    intro stop hstop
    rw [hstops, List.mem_append, List.mem_cons]
    tauto
  rw [List.mem_append, List.mem_append] at hflush
  rcases hflush with hbefore | hcall | hafter
  · exact h.stops (hother _ (.inl hbefore))
  · exact hcalls flush hcall
  · exact h.stops (hother _ (.inr hafter))

theorem PipelineTasks.Filled.dropped {before after : List StopCall} {call : StopCall} (h : t.Filled)
    (hstops : t.stops = before ++ call :: after) {flush : Flush}
    (hflush : .draining flush ∈ before ++ after) : flush.Filled :=
  h.replaced hstops (fun _ hcall => absurd hcall List.not_mem_nil) hflush

theorem Acts.filled {action : PipelineAction} (h : Acts limits t action t') (ht : t.Filled) :
    t'.Filled := by
  cases h with
  | enqueue => exact ⟨ht.flusher, ht.stops⟩
  | suspend => exact ⟨ht.flusher, ht.stops⟩
  | land => exact ⟨ht.flusher, ht.stops⟩
  | giveUp => exact ⟨ht.flusher, ht.stops⟩
  | fence => exact ⟨ht.flusher, ht.stops⟩
  | @wake owned p flush _ hwake =>
    have hfilled := @wake_filled limits t.pipeline owned
    rw [hwake] at hfilled
    exact ⟨fun hflusher => hfilled _ (loop_flushing hflusher), ht.stops⟩
  | @flusherResumes answer owned current p flush hflushing hresume =>
    have hfilled := resume_filled (ht.flusher hflushing) owned t.pipeline answer
    rw [hresume] at hfilled
    exact ⟨fun hflusher => hfilled _ (loop_flushing hflusher), ht.stops⟩
  | flusherCancelled => exact ⟨fun h => (by cases h), ht.stops⟩
  | stopAgain => exact ht
  | stop =>
    refine ⟨ht.flusher, fun hflush => ht.stops ?_⟩
    rcases List.mem_cons.mp hflush with h | h
    · cases h
    · exact h
  | @joined before after call flush owned p draining hstops _ _ hfinish =>
    have hfilled := @finishStop_filled limits t.pipeline owned flush
    rw [hfinish] at hfilled
    refine ⟨ht.flusher, fun hflush => ?_⟩
    rw [List.append_assoc] at hflush
    exact ht.replaced hstops (fun _ h => hfilled _ (mem_drainingCall h)) hflush
  | @joinTimeout before after flush hstops _ =>
    have hcalls : ∀ current, .draining current ∈ [StopCall.cancelling flush] → current.Filled := by
      simp
    exact ⟨ht.flusher, ht.replaced hstops hcalls⟩
  | joinFails hstops _ => exact ⟨ht.flusher, ht.dropped hstops⟩
  | @stopResumes before after current answer owned p flush hstops hresume =>
    have hcurrent : .draining current ∈ t.stops := by simp [hstops]
    have hfilled := resume_filled (ht.stops hcurrent) owned t.pipeline answer
    rw [hresume] at hfilled
    have hcalls : ∀ next, .draining next ∈ [StopCall.draining flush] → next.Filled := by
      simpa using hfilled
    exact ⟨ht.flusher, ht.replaced hstops hcalls⟩
  | @stopGoesOn before after current answer owned p p' flush hstops _ hloop =>
    have hfilled := @drainAndFlush_filled limits p owned
    rw [hloop] at hfilled
    refine ⟨ht.flusher, fun hflush => ?_⟩
    rw [List.append_assoc] at hflush
    exact ht.replaced hstops (fun _ h => hfilled _ (mem_drainingCall h)) hflush
  | stopCancelled hstops => exact ⟨ht.flusher, ht.dropped hstops⟩

theorem filled_run {allowed : PipelineTasks → PipelineAction → Prop}
    (hrun : PipelineRun limits allowed t) : t.Filled := by
  induction hrun with
  | refl => exact .started
  | tail _ hstep ih =>
    obtain ⟨action, -, hacts⟩ := hstep
    exact hacts.filled ih

end Quantive.WsSharding
