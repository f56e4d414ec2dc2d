import Mathlib.Tactic.Linarith
import Quantive.Candles.BatchesAlone
import Quantive.WsSharding.Events

/-!
# Batching

Inside a batch the first event of an open time wins; between batches the last one of equal
priority does. So the stored values depend on how a sequence of events was cut into batches, unless
every later event of a candle repeats what the first one left or has a lower priority.
-/

namespace Quantive.WsSharding
open Quantive.ReadCommitted Prog Protocol Quantive.Candles

/-! ### Flushes -/

/-- The commit of a group, and the persistence errors it counts. -/
def commitGroup (group : ℕ × List CandleEvent) : Candles.Task ℕ := do
  let payloads := (dedupedEvents group.2).1.map (CandleEvent.payload group.1)
  match ← (commitBatch group.1 payloads (pure ())).attempt with
  | .ok _ => pure 0
  | .error _ => pure 1

def commitGroups : List (ℕ × List CandleEvent) → Candles.Task ℕ
  | [] => pure 0
  | group :: rest => do
    let errors ← commitGroup group
    let others ← commitGroups rest
    pure (errors + others)

/-- `_process_and_flush_batch` of a shard that is owned and whose registry answers. -/
def processAndFlushBatch (resolve : Registry) (batch : List CandleEvent) : Candles.Task ℕ :=
  commitGroups (assetGroups resolve batch)

def flushBatches (resolve : Registry) : List (List CandleEvent) → Candles.Task ℕ
  | [] => pure 0
  | batch :: rest => do
    let errors ← processAndFlushBatch resolve batch
    let others ← flushBatches resolve rest
    pure (errors + others)

/-- The database after the flushes, if all of them succeeded. -/
def flushed (ans : ℕ → (q : Question) → Answer q) (resolve : Registry)
    (cut : List (List CandleEvent)) (d : Database) (names : ℕ) : Option Database :=
  match run ans (flushBatches resolve cut) { db := d, names := names } with
  | some (.ok 0, s) => some s.db
  | _ => none

/-! ### Events of a candle -/

def CandleEvent.content (e : CandleEvent) : Content where
  values := e.values
  source := match payloadSource (some e.source) with
    | .ok source => source
    | .error _ => e.source
  sourceEventTime := e.eventTime
  sourceReceivedAt := some e.receivedAt

/-- An accepted event that the constraints of the tables let through. -/
structure Admitted (e : CandleEvent) : Prop where
  accepted : validateCandlePayload e = true
  valid : e.values.Valid
  source : ∃ source, payloadSource (some e.source) = .ok source

/-- The events that a registry maps to the candle of a key. -/
def hits (resolve : Registry) (key : CandleKey) (events : List CandleEvent) : List CandleEvent :=
  events.filter fun e => e.timestamp = key.timestamp && resolve e.symbol = some (key.assetId, true)

/-- No event goes past the seven-day cutoff while the flushes run. -/
def Steady (cutoff : ℤ) (events : List CandleEvent) (ans : ℕ → (q : Question) → Answer q) : Prop :=
  ∀ n, ∀ now : ℤ, ans n .now = now → ∀ e ∈ events,
    (now - 7 * day ≤ e.timestamp ↔ cutoff ≤ e.timestamp)

/-- The first event settles the values: each later one repeats them or has a lower priority than
their source. -/
def Settled (old : Option Content) : List CandleEvent → Prop
  | [] => True
  | first :: later => ∀ e ∈ later,
    e.values = (Content.offer old first.content).values ∨
      sourcePriority e.content.source < sourcePriority (Content.offer old first.content).source

theorem Admitted.aligned {e : CandleEvent} (h : Admitted e) : e.timestamp % minute = 0 := by
  have hok := h.accepted
  unfold validateCandlePayload at hok
  simp only [Bool.and_eq_true, decide_eq_true_eq] at hok
  exact hok.1.2

/-- The candle of an admitted event. -/
theorem Admitted.validate {e : CandleEvent} (h : Admitted e) (assetId : ℕ) (now : ℤ) :
    ∃ c, Candles.validateCandlePayload assetId now (e.payload assetId) = .ok c ∧
      c.key = ⟨assetId, e.timestamp, h.aligned⟩ ∧ c.offer = some (c.key, e.content) := by
  obtain ⟨source, hsource⟩ := h.source
  have hvalues : payloadValues (e.payload assetId) = .ok (some e.values) := by
    change (do checkOhlcv e.values; pure (some e.values)) = _
    rw [checkOhlcv_ok h.valid]
    rfl
  refine ⟨⟨⟨assetId, e.timestamp, h.aligned⟩, some e.values, source, e.eventTime, some e.receivedAt⟩,
    ?_, rfl, ?_⟩
  · have haligned : (e.payload assetId).timestamp % minute = 0 := h.aligned
    have hsame : payloadSource (e.payload assetId).source = .ok source := hsource
    have hasset : ¬ (e.payload assetId).assetId.getD assetId ≠ assetId := by simp [CandleEvent.payload]
    unfold Candles.validateCandlePayload
    rw [dif_pos haligned, hvalues, hsame, if_neg hasset]
    rfl
  · unfold Candle.offer Candle.excluded CandleEvent.content
    rw [hsource]
    dsimp only
    rw [dif_pos h.valid]
    rfl

/-! ### One commit -/

section
variable {resolve : Registry} {cutoff : ℤ} {ans : ℕ → (q : Question) → Answer q}
  {s s' : Alone Database Write Lock} {events : List CandleEvent}

/-- Between two transactions of a session that is alone. -/
structure Idle (s : Alone Database Write Lock) : Prop where
  log : s.ctx.log = []
  undrawn : Undrawn (solo Database Lock) s

/-- What the events offer to the candle of a key. -/
def offersOf (assetId : ℕ) (cutoff : ℤ) (events : List CandleEvent) (key : CandleKey) :
    List Content :=
  (events.filter fun e => assetId = key.assetId && e.timestamp = key.timestamp &&
    cutoff ≤ e.timestamp).map CandleEvent.content

theorem offersFor_events {assetId : ℕ} {now now' : ℤ} (hadmitted : ∀ e ∈ events, Admitted e)
    (hsteady : ∀ e ∈ events, (now' - 7 * day ≤ e.timestamp ↔ cutoff ≤ e.timestamp))
    {candles : List Candle}
    (hprepare : prepareBatch assetId now (events.map (CandleEvent.payload assetId)) = .ok candles)
    (key : CandleKey) :
    offersFor key ((candles.filter fun c => now' - 7 * day ≤ c.key.timestamp).filterMap
      Candle.offer) = offersOf assetId cutoff events key := by
  have hall := prepareBatch_ok hprepare
  rw [List.forall₂_map_left_iff] at hall
  clear hprepare
  unfold offersOf
  induction hall with
  | nil => rfl
  | @cons e c events candles hok _ ih =>
    have hrest := ih (fun x hx => hadmitted x (List.mem_cons_of_mem _ hx))
      fun x hx => hsteady x (List.mem_cons_of_mem _ hx)
    obtain ⟨c', hok', hkey, hoffer⟩ := (hadmitted e List.mem_cons_self).validate assetId now
    rw [hok] at hok'
    cases hok'
    have htime : c.key.timestamp = e.timestamp := by rw [hkey]
    have hasset : c.key.assetId = assetId := by rw [hkey]
    have hlive : now' - 7 * day ≤ c.key.timestamp ↔ cutoff ≤ e.timestamp := by
      rw [htime]
      exact hsteady e List.mem_cons_self
    have hmatch : c.key = key ↔ assetId = key.assetId ∧ e.timestamp = key.timestamp := by
      rw [← hasset, ← htime]
      exact ⟨fun h => by rw [h]; exact ⟨rfl, rfl⟩, fun h => CandleKey.eq_of h.1 h.2⟩
    by_cases hl : cutoff ≤ e.timestamp
    · rw [List.filter_cons_of_pos (by simpa using hlive.mpr hl), List.filterMap_cons_some hoffer]
      by_cases hk : c.key = key
      · obtain ⟨ha, ht⟩ := hmatch.mp hk
        rw [List.filter_cons_of_pos (by simp [ha, ht, ht ▸ hl]), List.map_cons, ← hrest]
        exact List.filterMap_cons_some (by simp [hk])
      · have hne : ¬ (assetId = key.assetId ∧ e.timestamp = key.timestamp) := fun h => hk (hmatch.mpr h)
        rw [List.filter_cons_of_neg (by simp only [Bool.and_eq_true, decide_eq_true_eq]; tauto), ← hrest]
        exact List.filterMap_cons_none (by simp [hk])
    · rw [List.filter_cons_of_neg (by simpa using fun h => hl (hlive.mp h)),
        List.filter_cons_of_neg (by simp [hl])]
      exact hrest

/-- A commit that returns has offered its live events. -/
theorem commitBatch_run {assetId : ℕ} (hadmitted : ∀ e ∈ events, Admitted e)
    (hsteady : Steady cutoff events ans) (hs : Idle s)
    (hrun : run ans (commitBatch assetId (events.map (CandleEvent.payload assetId)) (pure ())) s =
      some (.ok (), s')) :
    Idle s' ∧ ∀ key, s'.db.content key =
      Content.offers (s.db.content key) (offersOf assetId cutoff events key) := by
  by_cases hempty : events = []
  · subst hempty
    cases hrun
    exact ⟨hs, fun key => rfl⟩
  · let O (q : Question) (r : Answer q) : Prop := ∃ n, ans n q = r
    have hpayloads : events.map (CandleEvent.payload assetId) ≠ [] := by simpa using hempty
    let Start (c : Ctx Write Lock) (d : Database) : Prop := c.log = [] ∧ d = s.db
    let Done (_ : Unit) (c : Ctx Write Lock) (d : Database) : Prop := c.log = [] ∧ ∀ key,
      d.content key = Content.offers (s.db.content key) (offersOf assetId cutoff events key)
    have hconnection : ∀ {Pre : Ctx Write Lock → Database → Prop},
        (solo Database Lock).Triple O () (fun _ _ => True) Pre Task.connection fun _ => Pre := by
      intro Pre
      refine Triple.seq (fun _ => Pre) (triple_query fun c d r h _ => h) fun r => ?_
      cases r with
      | none => exact triple_pure fun _ _ h => h
      | some e => exact triple_raise fun _ _ _ => trivial
    have hopen : (commitBatchInTransaction .direct assetId
        (events.map (CandleEvent.payload assetId))).Open := open_commitBatchInTransaction assetId _
    have hbody : (solo Database Lock).Triple O () (fun _ d => d = s.db) Start
        (commitBatchInTransaction .direct assetId (events.map (CandleEvent.payload assetId)))
        fun _ c d => d = s.db ∧ ∃ now, ∃ now' : ℤ, ∃ candles, O .now now' ∧
          prepareBatch assetId now (events.map (CandleEvent.payload assetId)) = .ok candles ∧
          Upserted ([] ++ (candles.filter fun c => now' - 7 * day ≤ c.key.timestamp).filterMap
            Candle.offer) c d := by
      intro c d h
      have hoffers := commitBatch_offers (O := O) (i := ()) locksRows_solo .direct
        assetId hpayloads c d (Upserted.start fun w hw => by rw [h.1] at hw; cases hw)
      have hdb := triple_of_db (P := solo Database Lock) (O := O) (i := ()) (B := fun d => d = s.db)
        (fun _ _ _ h he => (solo_env he).trans h) hopen c d h.2
      refine wp_mono (wp_and hoffers hdb) fun r c d hr => ?_
      cases r with
      | ok a => exact ⟨hr.2, hr.1⟩
      | error e => exact hr.2
    have htransaction : (solo Database Lock).Triple O () (fun _ _ => True) Start
        (transaction (commitBatchInTransaction .direct assetId
          (events.map (CandleEvent.payload assetId)))) Done := by
      refine Triple.transaction _ _ hbody (fun _ _ _ _ _ => trivial) fun _ c d d' h he => ?_
      obtain ⟨rfl, now, now', candles, ⟨n, hn⟩, hprepare, hupserted⟩ := h
      obtain rfl := solo_env he
      refine ⟨solo_guar _ _ _, rfl, fun key => ?_⟩
      rw [hupserted.content key, List.nil_append,
        offersFor_events hadmitted (hsteady n now' hn) hprepare]
    have hcommit : (solo Database Lock).Triple O () (fun _ _ => True) Start
        (commitBatch assetId (events.map (CandleEvent.payload assetId)) (pure ())) Done := by
      unfold commitBatch
      rw [if_neg (by simpa using hempty)]
      exact hconnection.bind fun _ => htransaction.bind fun u => hconnection.bind fun _ =>
        triple_pure fun _ _ h => h
    obtain ⟨hdone, hundrawn⟩ := run_of_wp (fun n q => ⟨n, rfl⟩) hs.undrawn
      (hcommit s.ctx s.db ⟨hs.log, rfl⟩) hrun
    exact ⟨⟨hdone.1, hundrawn⟩, hdone.2⟩

/-! ### Runs of flushes -/

theorem commitGroup_run {group : ℕ × List CandleEvent} (h : run ans (commitGroup group) s = some (.ok 0, s')) :
    run ans (commitBatch group.1 ((dedupedEvents group.2).1.map (CandleEvent.payload group.1))
      (pure ())) s = some (.ok (), s') := by
  unfold commitGroup at h
  dsimp only at h
  rw [run_bind, run_attempt] at h
  revert h
  cases run ans (commitBatch group.1 ((dedupedEvents group.2).1.map (CandleEvent.payload group.1))
    (pure ())) s with
  | none => exact fun h => by cases h
  | some r =>
    obtain ⟨r, s₁⟩ := r
    cases r with
    | ok u =>
      intro h
      cases h
      rfl
    | error e =>
      intro h
      cases h

/-- Two counted programs in a row without an error. -/
theorem counted_run {p q : Candles.Task ℕ}
    (h : run ans (do let m ← p; let n ← q; pure (m + n)) s = some (.ok 0, s')) :
    ∃ s₁, run ans p s = some (.ok 0, s₁) ∧ run ans q s₁ = some (.ok 0, s') := by
  rw [run_bind] at h
  cases hp : run ans p s with
  | none =>
    rw [hp] at h
    cases h
  | some r =>
    obtain ⟨r, s₁⟩ := r
    rw [hp] at h
    cases r with
    | error e => cases h
    | ok m =>
      dsimp only at h
      rw [run_bind] at h
      cases hq : run ans q s₁ with
      | none =>
        rw [hq] at h
        cases h
      | some r =>
        obtain ⟨r, s₂⟩ := r
        rw [hq] at h
        cases r with
        | error e => cases h
        | ok n =>
          obtain ⟨hsum, rfl⟩ : m + n = 0 ∧ s₂ = s' := by simpa using h
          obtain ⟨rfl, rfl⟩ := Nat.add_eq_zero_iff.mp hsum
          exact ⟨s₁, rfl, hq⟩

theorem Content.offers_flatMap {γ : Type} (old : Option Content) (f : γ → List Content) (x : γ)
    (xs : List γ) : Content.offers old ((x :: xs).flatMap f) =
      Content.offers (Content.offers old (f x)) (xs.flatMap f) := by
  rw [List.flatMap_cons, Content.offers_append]

theorem commitGroups_run {groups : List (ℕ × List CandleEvent)}
    (hadmitted : ∀ g ∈ groups, ∀ e ∈ g.2, Admitted e)
    (hsteady : ∀ g ∈ groups, Steady cutoff g.2 ans) (hs : Idle s)
    (hrun : run ans (commitGroups groups) s = some (.ok 0, s')) :
    Idle s' ∧ ∀ key, s'.db.content key = Content.offers (s.db.content key)
      (groups.flatMap fun g => offersOf g.1 cutoff (dedupedEvents g.2).1 key) := by
  induction groups generalizing s with
  | nil =>
    cases hrun
    exact ⟨hs, fun _ => rfl⟩
  | cons g groups ih =>
    obtain ⟨s₁, hfirst, hrest⟩ := counted_run hrun
    have hkept : ∀ e ∈ (dedupedEvents g.2).1, e ∈ g.2 := fun e he =>
      (dedupedEvents_perm g.2).subset (List.mem_append_left _ he)
    obtain ⟨hidle, hcontent⟩ := commitBatch_run
      (fun e he => hadmitted g List.mem_cons_self e (hkept e he))
      (fun n now hn e he => hsteady g List.mem_cons_self n now hn e (hkept e he)) hs
      (commitGroup_run hfirst)
    obtain ⟨hidle', hcontent'⟩ := ih (fun x hx => hadmitted x (List.mem_cons_of_mem _ hx))
      (fun x hx => hsteady x (List.mem_cons_of_mem _ hx)) hidle hrest
    refine ⟨hidle', fun key => ?_⟩
    rw [hcontent' key, hcontent key, Content.offers_flatMap]

/-- The offer of a batch to a key: its first event there, when the key is live. -/
def firstHit (resolve : Registry) (cutoff : ℤ) (key : CandleKey) (batch : List CandleEvent) :
    List Content :=
  if cutoff ≤ key.timestamp then (hits resolve key batch).head?.toList.map CandleEvent.content else []

theorem groups_firstHit (batch : List CandleEvent) (key : CandleKey) :
    ((assetGroups resolve batch).flatMap fun g => offersOf g.1 cutoff (dedupedEvents g.2).1 key) =
      firstHit resolve cutoff key batch := by
  let X (events : List CandleEvent) : List Content :=
    if cutoff ≤ key.timestamp then
      (events.filter fun e => e.timestamp = key.timestamp).head?.toList.map CandleEvent.content
    else []
  have hgroup : ∀ g : ℕ × List CandleEvent, offersOf g.1 cutoff (dedupedEvents g.2).1 key =
      if g.1 = key.assetId then X g.2 else [] := by
    intro g
    unfold offersOf
    by_cases ha : g.1 = key.assetId
    · rw [if_pos ha]
      by_cases hl : cutoff ≤ key.timestamp
      · have hsame : (fun e : CandleEvent => g.1 = key.assetId && e.timestamp = key.timestamp &&
            cutoff ≤ e.timestamp) = fun e => decide (e.timestamp = key.timestamp) := by
          funext e
          by_cases ht : e.timestamp = key.timestamp
          · simp [ha, ht, hl]
          · simp [ht]
        rw [hsame, dedupedEvents_filter]
        exact (if_pos hl).symm
      · have hnone : (fun e : CandleEvent => g.1 = key.assetId && e.timestamp = key.timestamp &&
            cutoff ≤ e.timestamp) = fun _ => false := by
          funext e
          by_cases ht : e.timestamp = key.timestamp
          · simp [ht, hl]
          · simp [ht]
        rw [hnone, List.filter_false]
        exact (if_neg hl).symm
    · rw [if_neg ha]
      simp [ha]
  obtain ⟨hnodup, hevents⟩ := assetGroups_spec resolve batch
  simp only [hgroup]
  rw [flatMap_eventsOf (by simp [X]) hnodup, hevents]
  unfold firstHit hits
  simp only [X, List.filter_filter]

theorem processAndFlushBatch_run {batch : List CandleEvent}
    (hadmitted : ∀ e ∈ batch, ∀ a, resolve e.symbol = some (a, true) → Admitted e)
    (hsteady : Steady cutoff batch ans) (hs : Idle s)
    (hrun : run ans (processAndFlushBatch resolve batch) s = some (.ok 0, s')) :
    Idle s' ∧ ∀ key, s'.db.content key =
      Content.offers (s.db.content key) (firstHit resolve cutoff key batch) := by
  have hmem : ∀ g ∈ assetGroups resolve batch, ∀ e ∈ g.2,
      e ∈ batch ∧ resolve e.symbol = some (g.1, true) := by
    intro g hg e he
    obtain ⟨hnodup, hevents⟩ := assetGroups_spec resolve batch
    rw [← eventsOf_group hnodup hg, hevents] at he
    simpa using List.mem_filter.mp he
  obtain ⟨hidle, hcontent⟩ := commitGroups_run
    (fun g hg e he => hadmitted e (hmem g hg e he).1 g.1 (hmem g hg e he).2)
    (fun g hg n now hn e he => hsteady n now hn e (hmem g hg e he).1) hs hrun
  refine ⟨hidle, fun key => ?_⟩
  rw [hcontent, groups_firstHit]

theorem flushBatches_run {cut : List (List CandleEvent)}
    (hadmitted : ∀ e ∈ cut.flatten, ∀ a, resolve e.symbol = some (a, true) → Admitted e)
    (hsteady : Steady cutoff cut.flatten ans) (hs : Idle s)
    (hrun : run ans (flushBatches resolve cut) s = some (.ok 0, s')) (key : CandleKey) :
    s'.db.content key = Content.offers (s.db.content key) (cut.flatMap (firstHit resolve cutoff key)) := by
  induction cut generalizing s with
  | nil =>
    cases hrun
    rfl
  | cons batch rest ih =>
    obtain ⟨s₁, hfirst, hrest⟩ := counted_run hrun
    obtain ⟨hidle, hcontent⟩ := processAndFlushBatch_run
      (fun e he => hadmitted e (List.mem_append_left _ he))
      (fun n now hn e he => hsteady n now hn e (List.mem_append_left _ he)) hs hfirst
    rw [ih (fun e he => hadmitted e (List.mem_append_right _ he))
      (fun n now hn e he => hsteady n now hn e (List.mem_append_right _ he)) hidle hrest,
      hcontent, Content.offers_flatMap]

/-! ### Flushes that succeed -/

theorem yields_commitGroup (hans : Calm ans) {group : ℕ × List CandleEvent}
    (hadmitted : ∀ e ∈ group.2, Admitted e) (hd : s.db.Tidy) (hs : s.view = s.db) :
    Yields ans (commitGroup group) s fun errors s' => errors = 0 ∧ s'.db.Tidy ∧ s'.view = s'.db := by
  have hkept : ∀ e ∈ (dedupedEvents group.2).1, e ∈ group.2 := fun e he =>
    (dedupedEvents_perm group.2).subset (List.mem_append_left _ he)
  have hadmissible : Admissible group.1 ((dedupedEvents group.2).1.map (CandleEvent.payload group.1)) := by
    constructor
    · intro now p hp
      obtain ⟨e, he, rfl⟩ := List.mem_map.mp hp
      obtain ⟨c, hok, -, hoffer⟩ := (hadmitted e (hkept e he)).validate group.1 now
      refine ⟨c, hok, ?_⟩
      unfold Candle.offer at hoffer
      obtain ⟨new, hnew, -⟩ := Option.map_eq_some_iff.mp hoffer
      rw [hnew]
      rfl
    · rw [List.pairwise_map]
      exact dedupedEvents_increasing group.2
  obtain ⟨u, s', hrun, hdone⟩ := yields_commitBatch hans hadmissible hd hs
  refine ⟨0, s', ?_, rfl, hdone⟩
  unfold commitGroup
  dsimp only
  rw [run_bind, run_attempt, hrun]
  rfl

theorem yields_counted {p q : Candles.Task ℕ} {K : Alone Database Write Lock → Prop}
    (hp : Yields ans p s fun errors s' => errors = 0 ∧ K s')
    (hq : ∀ s', K s' → Yields ans q s' fun errors s'' => errors = 0 ∧ K s'') :
    Yields ans (do let m ← p; let n ← q; pure (m + n)) s fun errors s' => errors = 0 ∧ K s' := by
  refine hp.bind fun m s₁ ⟨hm, hs₁⟩ => (hq s₁ hs₁).bind fun n s₂ ⟨hn, hs₂⟩ => yields_pure ⟨?_, hs₂⟩
  rw [hm, hn]

theorem yields_commitGroups (hans : Calm ans) {groups : List (ℕ × List CandleEvent)}
    (hadmitted : ∀ g ∈ groups, ∀ e ∈ g.2, Admitted e) (hd : s.db.Tidy) (hs : s.view = s.db) :
    Yields ans (commitGroups groups) s fun errors s' => errors = 0 ∧ s'.db.Tidy ∧ s'.view = s'.db := by
  induction groups generalizing s with
  | nil => exact yields_pure ⟨rfl, hd, hs⟩
  | cons g groups ih =>
    refine yields_counted (yields_commitGroup hans (hadmitted g List.mem_cons_self) hd hs) ?_
    exact fun s' h => ih (fun x hx => hadmitted x (List.mem_cons_of_mem _ hx)) h.1 h.2

theorem yields_flushBatches (hans : Calm ans) {cut : List (List CandleEvent)}
    (hadmitted : ∀ e ∈ cut.flatten, ∀ a, resolve e.symbol = some (a, true) → Admitted e)
    (hd : s.db.Tidy) (hs : s.view = s.db) : Yields ans (flushBatches resolve cut) s
      fun errors s' => errors = 0 ∧ s'.db.Tidy ∧ s'.view = s'.db := by
  induction cut generalizing s with
  | nil => exact yields_pure ⟨rfl, hd, hs⟩
  | cons batch rest ih =>
    have hgroups : ∀ g ∈ assetGroups resolve batch, ∀ e ∈ g.2, Admitted e := by
      intro g hg e he
      obtain ⟨hnodup, hevents⟩ := assetGroups_spec resolve batch
      rw [← eventsOf_group hnodup hg, hevents] at he
      have hmem := List.mem_filter.mp he
      exact hadmitted e (List.mem_append_left _ hmem.1) g.1 (by simpa using hmem.2)
    refine yields_counted (yields_commitGroups hans hgroups hd hs) ?_
    exact fun s' h => ih (fun e he => hadmitted e (List.mem_append_right _ he)) h.1 h.2

end

/-! ### The cut -/

/-- Offers that a row ignores. -/
theorem Content.offers_ignored {row : Content} {events : List CandleEvent}
    (h : ∀ e ∈ events, e.values = row.values ∨ sourcePriority e.content.source < sourcePriority row.source) :
    Content.offers (some row) (events.map CandleEvent.content) = some row := by
  induction events with
  | nil => rfl
  | cons e events ih =>
    have hsame : Content.offer (some row) e.content = row := by
      unfold Content.offer
      refine if_neg fun hput => ?_
      rcases h e List.mem_cons_self with hv | hp
      · exact hput.1 hv.symm
      · exact absurd hput.2 (not_le.mpr hp)
    have hstep : Content.offers (some row) ((e :: events).map CandleEvent.content) =
        Content.offers (some (Content.offer (some row) e.content)) (events.map CandleEvent.content) := rfl
    rw [hstep, hsame]
    exact ih fun x hx => h x (List.mem_cons_of_mem _ hx)

/-- Settled events leave what their first one leaves, whichever of the others are offered. -/
theorem Settled.offers {old : Option Content} {blocks : List (List CandleEvent)}
    (h : Settled old blocks.flatten) :
    Content.offers old (blocks.flatMap fun b => b.head?.toList.map CandleEvent.content) =
      Content.offers old (blocks.flatten.head?.toList.map CandleEvent.content) := by
  induction blocks with
  | nil => rfl
  | cons block rest ih =>
    cases block with
    | nil => exact ih h
    | cons first later =>
      have hheads : (rest.flatMap fun b => b.head?.toList.map CandleEvent.content) =
          (rest.flatMap fun b => b.head?.toList).map CandleEvent.content := by
        rw [List.map_flatMap]
      rw [Content.offers_flatMap, hheads]
      change Content.offers (some (Content.offer old first.content)) _ =
        some (Content.offer old first.content)
      refine Content.offers_ignored fun e he => h e ?_
      obtain ⟨b, hb, hmem⟩ := List.mem_flatMap.mp he
      have hin : e ∈ b := List.mem_of_mem_head? (Option.mem_toList.mp hmem)
      exact List.mem_append_right _ (List.mem_flatten.mpr ⟨b, hb, hin⟩)

theorem hits_flatten (resolve : Registry) (key : CandleKey) (cut : List (List CandleEvent)) :
    hits resolve key cut.flatten = (cut.map (hits resolve key)).flatten := by
  unfold hits
  rw [List.filter_flatten]

/-- Whatever the cut, a live candle whose events are settled ends with what the first left. -/
theorem firstHits_settled {resolve : Registry} {cutoff : ℤ} {key : CandleKey}
    {old : Option Content} {cut : List (List CandleEvent)}
    (h : cutoff ≤ key.timestamp → Settled old (hits resolve key cut.flatten)) :
    Content.offers old (cut.flatMap (firstHit resolve cutoff key)) =
      Content.offers old (firstHit resolve cutoff key cut.flatten) := by
  by_cases hl : cutoff ≤ key.timestamp
  · have hfirst : firstHit resolve cutoff key = fun batch =>
        (hits resolve key batch).head?.toList.map CandleEvent.content := funext fun _ => if_pos hl
    have hblocks := h hl
    rw [hits_flatten] at hblocks
    have hsettled := hblocks.offers
    rw [List.flatMap_map, ← hits_flatten] at hsettled
    rw [hfirst]
    exact hsettled
  · have hnone : firstHit resolve cutoff key = fun _ => [] := funext fun _ => if_neg hl
    rw [hnone, List.flatMap_eq_nil_iff.mpr fun _ _ => rfl]

/-- The claim on a sequence of events: both cuts leave the same values. -/
def CutIndependent (resolve : Registry) (cutoff : ℤ) (events : List CandleEvent) (d : Database) :
    Prop :=
  ∀ cut cut' : List (List CandleEvent), cut.flatten = events → cut'.flatten = events →
    ∀ ans ans', Steady cutoff events ans → Steady cutoff events ans' → ∀ names names' d₁ d₂,
      flushed ans resolve cut d names = some d₁ → flushed ans' resolve cut' d names' = some d₂ →
        ∀ key, d₁.ohlcv key = d₂.ohlcv key

theorem Database.ohlcv_content (d : Database) (key : CandleKey) :
    d.ohlcv key = (d.content key).map Content.values := by
  unfold Database.ohlcv Database.content
  rw [Option.map_map]
  rfl

theorem flushed_content {resolve : Registry} {cutoff : ℤ} {ans : ℕ → (q : Question) → Answer q}
    {cut : List (List CandleEvent)} {d d' : Database} {names : ℕ}
    (hadmitted : ∀ e ∈ cut.flatten, ∀ a, resolve e.symbol = some (a, true) → Admitted e)
    (hsteady : Steady cutoff cut.flatten ans) (h : flushed ans resolve cut d names = some d')
    (key : CandleKey) :
    d'.content key = Content.offers (d.content key) (cut.flatMap (firstHit resolve cutoff key)) := by
  have hidle : Idle { db := d, names := names } := ⟨rfl, solo_undrawn d names⟩
  unfold flushed at h
  split at h
  · rename_i s hrun
    cases h
    exact flushBatches_run hadmitted hsteady hidle hrun key
  · cases h

theorem flushed_calm {resolve : Registry} {ans : ℕ → (q : Question) → Answer q} (hans : Calm ans)
    {cut : List (List CandleEvent)} {d : Database}
    (hadmitted : ∀ e ∈ cut.flatten, ∀ a, resolve e.symbol = some (a, true) → Admitted e)
    (hd : d.Tidy) : ∃ d', flushed ans resolve cut d 0 = some d' := by
  obtain ⟨errors, s, hrun, rfl, -⟩ :=
    yields_flushBatches (s := { db := d, names := 0 }) hans hadmitted hd rfl
  refine ⟨s.db, ?_⟩
  unfold flushed
  rw [hrun]
  rfl

/-- Surroundings in which nothing fails and the clock stands. -/
def standing (now : ℤ) : ℕ → (q : Question) → Answer q
  | _, .now => now
  | _, .fault => (none : Option Failure)
  | _, .ownershipLost => false
  | _, .klines _ => KlinesResponse.klines []

/-- The stored values do not depend on the cut exactly when the first event of every live candle
settles them. -/
theorem cut_independent_iff {resolve : Registry} {cutoff : ℤ} {events : List CandleEvent}
    {d : Database} (hd : d.Tidy)
    (hadmitted : ∀ e ∈ events, ∀ a, resolve e.symbol = some (a, true) → Admitted e) :
    CutIndependent resolve cutoff events d ↔
      ∀ key : CandleKey, cutoff ≤ key.timestamp → Settled (d.content key) (hits resolve key events) := by
  constructor
  · intro hsame key hl
    cases hhits : hits resolve key events with
    | nil => trivial
    | cons first later =>
      intro e he
      by_contra hput
      simp only [not_or, not_lt] at hput
      -- cut just before `e`: the second batch begins with it
      obtain ⟨before, after, rfl⟩ := List.append_of_mem he
      obtain ⟨xs, ys, hsplit, hxs, hys⟩ :=
        List.filter_eq_append_iff.mp (show events.filter _ = (first :: before) ++ e :: after from hhits)
      have hone : [events].flatten = events := by simp
      have htwo : [xs, ys].flatten = events := by simp [hsplit]
      have hsteady : Steady cutoff events (standing (cutoff + 7 * day)) := by
        intro n now hn x _
        obtain rfl : cutoff + 7 * day = now := hn
        constructor <;> intro h <;> omega
      have hcalm : Calm (standing (cutoff + 7 * day)) := fun _ => rfl
      obtain ⟨d₁, hd₁⟩ : ∃ d₁, flushed (standing (cutoff + 7 * day)) resolve [events] d 0 = some d₁ :=
        flushed_calm hcalm (by rwa [hone]) hd
      obtain ⟨d₂, hd₂⟩ : ∃ d₂, flushed (standing (cutoff + 7 * day)) resolve [xs, ys] d 0 = some d₂ :=
        flushed_calm hcalm (by rwa [htwo]) hd
      have hvalues := hsame _ _ hone htwo _ _ hsteady hsteady _ _ _ _ hd₁ hd₂ key
      rw [Database.ohlcv_content, Database.ohlcv_content,
        flushed_content (by rwa [hone]) (by rwa [hone]) hd₁,
        flushed_content (by rwa [htwo]) (by rwa [htwo]) hd₂] at hvalues
      have hfirst : ∀ batch x rest, hits resolve key batch = x :: rest →
          firstHit resolve cutoff key batch = [x.content] := by
        intro batch x rest hb
        unfold firstHit
        rw [if_pos hl, hb]
        rfl
      rw [List.flatMap_singleton, hfirst events _ _ hhits, List.flatMap_cons,
        List.flatMap_singleton, hfirst xs _ _ hxs, hfirst ys _ _ hys] at hvalues
      have htaken : Content.offer (some (Content.offer (d.content key) first.content)) e.content =
          e.content := if_pos ⟨Ne.symm hput.1, hput.2⟩
      have heq : some (Content.offer (d.content key) first.content).values =
          some (Content.offer (some (Content.offer (d.content key) first.content)) e.content).values :=
        hvalues
      rw [htaken] at heq
      exact hput.1 (Option.some.inj heq).symm
  · intro hsettled cut cut' hcut hcut' ans ans' hsteady hsteady' names names' d₁ d₂ h₁ h₂ key
    have hfinal : ∀ (cut : List (List CandleEvent)) ans names d', cut.flatten = events →
        Steady cutoff events ans → flushed ans resolve cut d names = some d' →
        d'.content key = Content.offers (d.content key) (firstHit resolve cutoff key events) := by
      intro cut ans names d' hcut hsteady h
      rw [flushed_content (by rwa [hcut]) (by rwa [hcut]) h,
        firstHits_settled (by rw [hcut]; exact hsettled key), hcut]
    rw [Database.ohlcv_content, Database.ohlcv_content, hfinal cut ans names d₁ hcut hsteady h₁,
      hfinal cut' ans' names' d₂ hcut' hsteady' h₂]

/-! ### Two events of one minute -/

/-- An event of minute 0 with one price. -/
def flatEvent (price : ℚ) (receivedAt : ℤ) : CandleEvent :=
  { symbol := "BTCUSDT", timestamp := 0, closeTime := 59999000, isClosed := true
    values := ⟨price, price, price, price, 1⟩, receivedAt := receivedAt }

def oneAsset : Registry := fun symbol => if symbol = "BTCUSDT" then some (1, true) else none

theorem flatEvent_admitted {price : ℚ} {receivedAt : ℤ}
    (haccepted : validateCandlePayload (flatEvent price receivedAt) = true) (hprice : 0 < price) :
    Admitted (flatEvent price receivedAt) := by
  have hsource : payloadSource (some "binance_ws") = .ok "binance_ws" := by decide +kernel
  refine ⟨haccepted, ?_, "binance_ws", hsource⟩
  have hone : (0 : ℚ) ≤ 1 := by norm_num
  exact ⟨hprice, hprice, hprice, hprice, hone, le_refl _, le_refl _, le_refl _, le_refl _, le_refl _⟩

/-- An event that is delivered twice is stored once, however the deliveries are cut. -/
theorem repeated_event_independent :
    CutIndependent oneAsset (-7 * day) [flatEvent 1 0, flatEvent 1 5] {} := by
  have hadmitted : ∀ e ∈ [flatEvent 1 0, flatEvent 1 5], Admitted e := by
    intro e he
    rcases List.mem_cons.mp he with rfl | he
    · exact flatEvent_admitted (by decide +kernel) (by norm_num)
    · rw [List.mem_singleton.mp he]
      exact flatEvent_admitted (by decide +kernel) (by norm_num)
  refine (cut_independent_iff Database.Tidy.empty fun e he _ _ => hadmitted e he).mpr fun key _ => ?_
  have hsame : ∀ e ∈ hits oneAsset key [flatEvent 1 0, flatEvent 1 5],
      e.values = ⟨1, 1, 1, 1, 1⟩ := by
    intro e he
    rcases List.mem_cons.mp (List.mem_of_mem_filter he) with rfl | he
    · rfl
    · rw [List.mem_singleton.mp he]
      rfl
  cases hhits : hits oneAsset key [flatEvent 1 0, flatEvent 1 5] with
  | nil => trivial
  | cons first later =>
    rw [hhits] at hsame
    refine fun e he => Or.inl ?_
    exact (hsame e (List.mem_cons_of_mem _ he)).trans (hsame first List.mem_cons_self).symm

/-- Two corrections of one minute: a common batch stores the first, separate ones the second. -/
theorem cut_decides :
    (∀ e ∈ [flatEvent 1 0, flatEvent 2 5], validateCandlePayload e = true) ∧
    ((flushed (standing 0) oneAsset [[flatEvent 1 0, flatEvent 2 5]] {} 0).map fun d =>
      d.ohlcv ⟨1, 0, by decide⟩) = some (some ⟨1, 1, 1, 1, 1⟩) ∧
    ((flushed (standing 0) oneAsset [[flatEvent 1 0], [flatEvent 2 5]] {} 0).map fun d =>
      d.ohlcv ⟨1, 0, by decide⟩) = some (some ⟨2, 2, 2, 2, 1⟩) := by
  decide +kernel

end Quantive.WsSharding
