import Quantive.Monitoring.BindingFlush
import Quantive.Monitoring.Rebinding

/-!
# Exactly-once assessment

Whatever the monitors, the producers, the registrations and the operators do to one another, a run is
assessed at most once, by a worker that holds the binding under its current claim, and together with
the evidence of all of its findings.
-/

namespace Quantive.Monitoring
open Quantive.ReadCommitted Prog Protocol MonitoringDatabase MonitoringTask

variable {i : MonitoringParty} {c : Ctx MonitoringWrite MonitoringLock} {d d' : MonitoringDatabase}
  {O : (q : MonitoringQuestion) → MonitoringAnswer q → Prop} {α : Type}
  {J Pre : Ctx MonitoringWrite MonitoringLock → MonitoringDatabase → Prop}
  {claim : BindingClaim} {linked : List ℕ} {w : BindingWork} {row : StrategyMonitoringBinding}

/-! ### The head of a transaction -/

theorem idle_lockable : ledger.Lockable i Idle := ⟨fun _ _ _ h he => idle_stable h he, fun _ _ _ h => h⟩

theorem Idle.view (h : Idle c d) : c.view d = d := by
  unfold Ctx.view
  rw [h.2]
  rfl

theorem Idle.healthOnly (h : Idle c d) : HealthOnly c.log := by
  rw [h.2]
  exact fun x hx => absurd hx List.not_mem_nil

/-- The session has locked the row of its binding, which it owns. -/
structure Owned (claim : BindingClaim) (row : StrategyMonitoringBinding)
    (c : Ctx MonitoringWrite MonitoringLock) (d : MonitoringDatabase) : Prop where
  consistent : d.Consistent
  written : HealthOnly c.log
  lock : .binding claim.bindingId ∈ c.held
  current : d.binding claim.bindingId = some row
  active : row.status = .active
  holds : claim.holds row = true

theorem owned_lockable : ledger.Lockable i (Owned claim row) where
  stable _ _ _ h he := ⟨he.2, h.written, h.lock, he.1.binding _ h.lock row h.current, h.active, h.holds⟩
  hold _ _ _ h := ⟨h.consistent, h.written, List.mem_cons_of_mem _ h.lock, h.current, h.active, h.holds⟩

theorem Owned.push (h : Owned claim row c d) (id : ℕ) (state : StrategyHealthState) :
    Owned claim row (c.push (.putHealth id state)) d := by
  refine ⟨h.consistent, fun x hx => ?_, h.lock, h.current, h.active, h.holds⟩
  rcases List.mem_append.mp hx with hx | hx
  · exact h.written x hx
  · exact ⟨id, state, List.mem_singleton.mp hx⟩

/-- The objects before the first SELECT of incidents. -/
theorem Owned.busy (h : Owned claim row c d) (health : HealthState) :
    Busy (fun _ => True) claim [] (.start claim row health) c d := by
  have hworking : Working claim [] (.start claim row health) c d := {
    consistent := h.consistent
    claimed := rfl
    lock := h.lock
    owns := ⟨row, h.current, h.active, h.holds⟩
    rowId := h.consistent.keyed _ row h.current
    selected := fun _ hx => absurd hx List.not_mem_nil
    changed := fun _ hx => absurd hx List.not_mem_nil
    counted := fun _ _ => rfl
    added := fun _ hx => absurd hx List.not_mem_nil
    addedIds := List.nodup_nil
    targets := fun _ hx => absurd hx List.not_mem_nil
    links := fun _ hx => absurd hx List.not_mem_nil
    recorded := fun _ hx => absurd hx List.not_mem_nil }
  exact ⟨hworking, h.written, trivial⟩

theorem fixed_true : Fixed fun _ => True := fun _ _ _ _ _ h => h

theorem triple_lockedActivation (id : ℕ) :
    ledger.Triple O i J Idle (lockedActivation id) fun _ => Idle :=
  (triple_lockMatching idle_lockable).post fun _ _ _ h => h.1

theorem triple_ownedBinding (claim : BindingClaim) :
    ledger.Triple O i J Idle (ownedBinding claim) fun r c d =>
      Idle c d ∧ ∀ row, r = some row → Owned claim row c d := by
  refine Triple.seq (fun _ => Idle) (triple_query fun _ _ _ h _ => h) fun now => ?_
  refine (triple_lockFirst_mem idle_lockable [claim.bindingId]).bind fun found => triple_pure fun c d h => ?_
  refine ⟨h.1, fun row hrow => ?_⟩
  obtain ⟨⟨id, r⟩, hfound, rfl⟩ := Option.map_eq_some_iff.mp hrow
  obtain ⟨hid, hlock, hr⟩ := h.2 id r hfound
  obtain rfl := List.mem_singleton.mp hid
  rw [h.1.view] at hr
  obtain ⟨hcurrent, howns⟩ := Option.filter_eq_some_iff.mp hr
  unfold BindingClaim.owns at howns
  simp only [Bool.and_eq_true, decide_eq_true_eq] at howns
  exact ⟨h.1.1, h.1.healthOnly, hlock, hcurrent, howns.1.1, howns.1.2⟩

theorem triple_healthState (claim : BindingClaim) (row : StrategyMonitoringBinding) :
    ledger.Triple O i (fun _ _ => True) (Owned claim row) (healthState row) fun _ => Owned claim row := by
  refine ((triple_lockMatching owned_lockable).post fun _ _ _ h => h.1).bind fun found => ?_
  cases found with
  | some state =>
    dsimp only
    split
    · exact triple_pure fun _ _ h => h
    · exact triple_pure fun _ _ h => h
  | none =>
    refine Triple.seq (fun _ => Owned claim row) (triple_acquire fun c d d' h he =>
      (owned_lockable (i := i)).hold c d' _ (owned_lockable.stable c d d' h he)) fun _ => ?_
    refine ((triple_look owned_lockable.stable).post fun _ _ _ h => h.1).bind fun s => ?_
    split
    · exact triple_raise fun _ _ _ => trivial
    · exact Triple.seq (fun _ => Owned claim row) (triple_emit fun c d h => h.push _ _) fun _ =>
        triple_pure fun _ _ h => h

/-- What the head of a transaction leaves. -/
structure Opened (i : MonitoringParty) (claim : BindingClaim)
    (r : Option (LiveStrategy.LiveStrategyActivation × BindingWork))
    (c : Ctx MonitoringWrite MonitoringLock) (d : MonitoringDatabase) : Prop where
  disowned : r = none → Committable i c d
  owned : ∀ activation w, r = some (activation, w) → Busy (fun _ => True) claim [] w c d

theorem Opened.busy {activation : LiveStrategy.LiveStrategyActivation}
    (h : Opened i claim (some (activation, w)) c d) : Busy (fun _ => True) claim [] w c d :=
  h.owned activation w rfl

theorem triple_openCycle (claim : BindingClaim) :
    ledger.Triple O i (fun _ _ => True) Idle (openCycle claim) (Opened i claim) := by
  have hnone : ledger.Triple O i (fun _ _ => True) Idle (pure none :
      MonitoringTask (Option (LiveStrategy.LiveStrategyActivation × BindingWork))) (Opened i claim) :=
    triple_pure fun c d h => ⟨fun _ => h.quiet.committable, fun _ _ hr => by cases hr⟩
  refine (triple_lockedActivation claim.activationId).bind fun activation => ?_
  cases activation with
  | none => exact hnone
  | some activation =>
    refine (triple_ownedBinding claim).bind fun row => ?_
    cases row with
    | none => exact hnone.pre fun c d h => h.1
    | some row =>
      refine Triple.seq (fun _ => Owned claim row) (triple_query fun c d _ h _ => h.2 row rfl) fun corrupt => ?_
      cases corrupt with
      | true => exact triple_raise fun _ _ _ => trivial
      | false =>
        refine (triple_healthState claim row).bind fun health => triple_pure fun c d h => ?_
        refine ⟨fun hr => by (cases hr), fun activation w hr => ?_⟩
        cases hr
        exact h.busy health

/-! ### The transactions of a cycle -/

theorem triple_settleInactive (activation : LiveStrategy.LiveStrategyActivation) :
    ledger.Triple O i (fun _ _ => True) (Busy (fun _ => True) claim [] w) (settleInactive activation w)
      fun _ => Committable i := by
  have hflush (w : BindingWork) : ledger.Triple O i (fun _ _ => True) (Busy (fun _ => True) claim [] w)
      (flush w none) fun _ => Committable i :=
    triple_flush fixed_true none (fun _ _ _ => settles_nothing) fun _ ha => absurd ha List.not_mem_nil
  unfold settleInactive
  split
  · refine Triple.bind ((triple_recordRuntimeFailure fixed_true activation _ none none none).pre ?_) fun w =>
      hflush w
    exact fun c d h => h.update (h.working.retouch rfl rfl rfl rfl rfl rfl)
  · refine Triple.seq (fun _ => Busy (fun _ => True) claim [] w) (triple_query fun _ _ _ h _ => h) fun now => ?_
    exact (hflush _).pre fun c d h => h.update (h.working.retouch rfl rfl rfl rfl rfl rfl)

theorem keeps_finalizeCycle (claim : BindingClaim) : ledger.Keeps O i Idle (finalizeCycle claim) := by
  refine triple_inTransaction ((triple_openCycle claim).bind fun r => ?_)
  cases r with
  | none => exact triple_pure fun c d h => h.disowned rfl
  | some opened =>
    obtain ⟨activation, w⟩ := opened
    refine Triple.pre ?_ fun c d h => Opened.busy h
    dsimp only
    split
    · exact triple_settleInactive activation
    · refine (triple_checkComparisonFreshness fixed_true).bind fun w => ?_
      refine (triple_checkStaleness fixed_true activation).bind fun w => ?_
      refine Triple.seq (fun _ => Busy (fun _ => True) claim [] w) (triple_query fun _ _ _ h _ => h) fun now => ?_
      refine (triple_flush fixed_true none (fun _ _ _ => settles_nothing) fun _ ha =>
        absurd ha List.not_mem_nil).pre fun c d h => h.update (h.working.retouch rfl rfl rfl rfl rfl rfl)

/-- What a state knows of the runs, it knows of the tables from then on. -/
theorem triple_lookRuns {F : MonitoringDatabase → Prop} (hF : Fixed F) :
    ledger.Triple O i J (Busy F claim linked w) (view : MonitoringTask MonitoringDatabase) fun s c d =>
      ∀ runId, s.Ran runId → Busy (Reports runId (s.reported runId)) claim linked w c d := by
  refine triple_view fun c d d' h he runId hran => ?_
  have hlater := (Busy.lockable hF).stable c d d' h he
  obtain ⟨health, hview⟩ := hlater.view
  rw [hview] at hran ⊢
  exact ⟨hlater.working, hlater.written, hran, rfl⟩

theorem keeps_processOneComparisonRun (settings : MonitoringSettings) (claim : BindingClaim) :
    ledger.Keeps O i Idle (processOneComparisonRun settings claim) := by
  refine triple_inTransaction ((triple_openCycle claim).bind fun r => ?_)
  cases r with
  | none => exact triple_pure fun c d h => h.disowned rfl
  | some opened =>
    obtain ⟨activation, w⟩ := opened
    refine Triple.pre ?_ fun c d h => Opened.busy h
    dsimp only
    split
    · exact (triple_settleInactive activation).bind fun _ => triple_pure fun _ _ h => h
    · refine ((triple_look (Busy.lockable fixed_true).stable).and (triple_lookRuns fixed_true)).pre
        (fun c d h => ⟨h, h⟩) |>.bind fun s => ?_
      cases hnext : nextPendingComparison (s.storeOf w.session.db.binding) with
      | none =>
        refine Triple.bind ((triple_flush fixed_true none (fun _ _ _ => settles_nothing) fun _ ha =>
          absurd ha List.not_mem_nil).pre fun c d h => h.1.1) fun _ => triple_pure fun _ _ h => h
      | some run =>
        have hran : s.Ran run.runId := ⟨run, (List.mem_filter.mp (nextPendingComparison_mem hnext)).1, rfl⟩
        refine ((triple_processRun settings run (s.reported run.runId)).pre fun c d h => h.2 run.runId hran).bind
          fun r => Triple.fact fun hassesses => ?_
        obtain ⟨w, assessment⟩ := r
        refine Triple.seq (fun _ => Busy (Reports run.runId (s.reported run.runId)) claim
          ((pageOrder (s.reported run.runId)).map Finding.id) w) (triple_query fun _ _ _ h _ => h)
          fun processedAt => ?_
        refine Triple.bind ((triple_flush (reports_fixed run.runId (s.reported run.runId)) (some assessment)
          (fun d hd h => settles_run hassesses hd h) fun a ha => ?_).pre fun c d h =>
            h.update (h.working.retouch rfl rfl rfl rfl rfl rfl)) fun _ => triple_pure fun _ _ h => h
        obtain rfl := List.mem_singleton.mp ha
        exact hassesses.2

theorem keeps_errorText (failure : MonitoringFailure) {I : Ctx MonitoringWrite MonitoringLock →
    MonitoringDatabase → Prop} : ledger.Triple O i J I (errorText failure) fun _ => I := by
  unfold errorText
  split
  · exact triple_pure fun _ _ h => h
  · exact triple_pure fun _ _ h => h
  · exact triple_query fun _ _ _ h _ => h

theorem keeps_recordClaimError (claim : BindingClaim) (failure : MonitoringFailure) :
    ledger.Keeps O i Idle (recordClaimError claim failure) := by
  refine Keeps.bind (Keeps.attempt (triple_inTransaction ?_)) fun _ => triple_pure fun _ _ h => h
  refine (triple_lockedActivation claim.activationId).bind fun activation => ?_
  refine (triple_ownedBinding claim).bind fun row => ?_
  cases activation with
  | none => exact triple_pure fun c d h => h.1.quiet.committable
  | some activation =>
    cases row with
    | none => exact triple_pure fun c d h => h.1.quiet.committable
    | some row =>
      refine ((triple_healthState claim row).pre fun c d h => h.2 row rfl).bind fun health => ?_
      refine Triple.seq (fun _ => Owned claim row) (triple_query fun _ _ _ h _ => h) fun corrupt => ?_
      refine (keeps_errorText failure).bind fun error => ?_
      refine ((triple_recordRuntimeFailure fixed_true activation _ _ _ _).pre fun c d h => h.busy _).bind
        fun w => ?_
      refine Triple.seq (fun _ => Busy (fun _ => True) claim [] w) (triple_query fun _ _ _ h _ => h) fun now => ?_
      exact (triple_flush fixed_true none (fun _ _ _ => settles_nothing) fun _ ha =>
        absurd ha List.not_mem_nil).pre fun c d h => h.update (h.working.retouch rfl rfl rfl rfl rfl rfl)

/-! ### Claims and registrations -/

theorem Quiet.push (h : Quiet c d) {x : MonitoringWrite} (hx : QuietWrite c d x) : Quiet (c.push x) d := by
  refine ⟨h.1, fun y hy => ?_⟩
  rcases List.mem_append.mp hy with hy | hy
  · exact h.2 y hy
  · obtain rfl := List.mem_singleton.mp hy
    exact hx

theorem quiet_lockable : ledger.Lockable i Quiet := ⟨quiet_inv.stable, (quiet_inv (i := i)).hold⟩

/-- A transaction of quiet writes. -/
theorem keeps_quiet {body : MonitoringTask α}
    (h : ledger.Triple O i (fun _ _ => True) Idle body fun _ => Quiet) :
    ledger.Keeps O i Idle (inTransaction body) :=
  triple_inTransaction (h.post fun _ _ _ hq => hq.committable)

theorem Idle.putBinding (h : Idle c d) {id : ℕ} (hlock : .binding id ∈ c.held) (hrow : d.binding id = some row)
    {row' : StrategyMonitoringBinding} (hid : row'.binding.id = row.binding.id) :
    Quiet (c.push (.putBinding row')) d := by
  have hkey : row'.binding.id = id := hid.trans (h.1.keyed id row hrow)
  exact h.quiet.push (.inl ⟨hkey ▸ hlock, row, hkey ▸ hrow⟩)

theorem keeps_claimBinding (settings : MonitoringSettings) (bindingId : ℕ) (workerId : String) :
    ledger.Keeps O i Idle (claimBinding settings bindingId workerId) := by
  refine Triple.seq (fun _ => Idle) (triple_query fun _ _ _ h _ => h) fun now => ?_
  refine Triple.seq (fun _ => Idle) (triple_draw fun c d d' n h he _ _ => ⟨he.2, h.2⟩) fun token => ?_
  refine keeps_quiet ((triple_lockFirst_mem idle_lockable [bindingId]).bind fun found => ?_)
  cases found with
  | none => exact triple_pure fun c d h => h.1.quiet
  | some found =>
    obtain ⟨id, row⟩ := found
    refine Triple.seq (fun _ => Quiet) (triple_emit fun c d h => ?_) fun _ => triple_pure fun _ _ h => h
    obtain ⟨-, hlock, hrow⟩ := h.2 id row rfl
    rw [h.1.view] at hrow
    exact h.1.putBinding hlock (Option.filter_eq_some_iff.mp hrow).1 rfl

theorem keeps_releaseClaim (claim : BindingClaim) : ledger.Keeps O i Idle (releaseClaim claim) := by
  refine Keeps.bind (Keeps.attempt (keeps_quiet ?_)) fun _ => triple_pure fun _ _ h => h
  refine (triple_lockMatching idle_lockable).bind fun found => ?_
  cases found with
  | none => exact triple_pure fun c d h => h.1.quiet
  | some row =>
    refine triple_emit fun c d h => ?_
    obtain ⟨hlock, hrow⟩ := h.2 row rfl
    rw [h.1.view] at hrow
    exact h.1.putBinding hlock (Option.filter_eq_some_iff.mp hrow).1 rfl

theorem keeps_renewClaim (settings : MonitoringSettings) (claim : BindingClaim) :
    ledger.Keeps O i Idle (renewClaim settings claim) := by
  refine Triple.seq (fun _ => Idle) (triple_query fun _ _ _ h _ => h) fun now => ?_
  refine Keeps.bind (Keeps.attempt (keeps_quiet ?_)) fun r => ?_
  · refine (triple_lockMatching idle_lockable).bind fun found => ?_
    cases found with
    | none => exact triple_pure fun c d h => h.1.quiet
    | some row =>
      refine Triple.seq (fun _ => Quiet) (triple_emit fun c d h => ?_) fun _ => triple_pure fun _ _ h => h
      obtain ⟨hlock, hrow⟩ := h.2 row rfl
      rw [h.1.view] at hrow
      exact h.1.putBinding hlock (Option.filter_eq_some_iff.mp hrow).1 rfl
  · cases r with
    | ok renewed => exact triple_pure fun _ _ h => h
    | error e => exact triple_pure fun _ _ h => h

/-- A registration has drawn the id of the new binding. -/
theorem triple_replaceBinding (r : MonitoringRegistration) (now : ℤ)
    (existing : Option StrategyMonitoringBinding) :
    ledger.Triple O i (fun _ _ => True) (fun c d => Idle c d ∧ ∀ row, existing = some row →
        .binding row.binding.id ∈ c.held ∧ d.binding row.binding.id = some row)
      (replaceBinding r now existing) fun _ => Quiet := by
  unfold replaceBinding
  split
  · exact triple_pure fun c d h => h.1.quiet
  refine Triple.seq (fun id c d => (Idle c d ∧ ∀ row, existing = some row →
    .binding row.binding.id ∈ c.held ∧ d.binding row.binding.id = some row) ∧ id ∈ c.owned ∧ d.Unused id)
    (triple_draw fun c d d' id h he _ hu => ?_) fun id => ?_
  · refine ⟨⟨⟨he.2, h.1.2⟩, fun row hrow => ?_⟩, List.mem_cons_self, hu⟩
    obtain ⟨hlock, hcurrent⟩ := h.2 row hrow
    exact ⟨hlock, he.1.binding _ hlock row hcurrent⟩
  have hPre : ledger.Lockable i fun c d => Quiet c d ∧ id ∈ c.owned ∧ d.Unused id :=
    ⟨fun c d d' h he => ⟨quiet_inv.stable c d d' h.1 he, h.2.1, he.1.names id h.2.1 h.2.2⟩,
      fun c d l h => ⟨quiet_inv.hold (i := i) c d l h.1, h.2⟩⟩
  refine Triple.seq (fun _ c d => Quiet c d ∧ id ∈ c.owned ∧ d.Unused id) ?_ fun _ => ?_
  · cases existing with
    | none => exact triple_pure fun c d h => ⟨h.1.1.quiet, h.2⟩
    | some row =>
      refine Triple.seq (fun _ c d => Quiet c d ∧ id ∈ c.owned ∧ d.Unused id) (triple_emit fun c d h => ?_)
        fun _ => triple_pure fun _ _ h => h
      obtain ⟨hlock, hcurrent⟩ := h.1.2 row rfl
      exact ⟨h.1.1.putBinding hlock hcurrent rfl, h.2⟩
  refine Triple.seq (fun _ c d => Quiet c d ∧ id ∈ c.owned ∧ d.Unused id)
    (triple_acquire fun c d d' h he => hPre.hold c d' _ (hPre.stable c d d' h he)) fun _ => ?_
  refine ((triple_look hPre.stable).post fun _ _ _ h => h.1).bind fun s => ?_
  split
  · exact triple_raise fun _ _ _ => trivial
  refine Triple.seq (fun _ => Quiet) (triple_emit fun c d h => h.1.push (.inr h.2)) fun _ => ?_
  refine ((triple_lockMatching quiet_lockable).post fun _ _ _ h => h.1).bind fun health => ?_
  exact triple_emit fun c d h => h.push trivial

theorem keeps_register (r : MonitoringRegistration) : ledger.Keeps O i Idle (register r) := by
  refine Triple.seq (fun _ => Idle) (triple_query fun _ _ _ h _ => h) fun now => ?_
  refine keeps_quiet ((triple_lockedActivation r.activationId).bind fun activation => ?_)
  cases activation with
  | none => exact triple_raise fun _ _ _ => trivial
  | some activation =>
    dsimp only
    split
    · exact triple_raise fun _ _ _ => trivial
    refine Triple.seq (fun _ => Idle) (triple_query fun _ _ _ h _ => h) fun unrelated => ?_
    split
    · exact triple_raise fun _ _ _ => trivial
    refine ((triple_look idle_lockable.stable).post fun _ _ _ h => h.1).bind fun s => ?_
    cases hactive : s.activeBinding r.activationId with
    | none => exact (triple_replaceBinding r now none).pre fun c d h => ⟨h, fun row hrow => by cases hrow⟩
    | some row =>
      refine (triple_lockMatching idle_lockable).bind fun existing => ?_
      refine (triple_replaceBinding r now existing).pre fun c d h => ⟨h.1, fun old hold => ?_⟩
      obtain ⟨hlock, hrow⟩ := h.2 old hold
      rw [h.1.view] at hrow
      have hcurrent := (Option.filter_eq_some_iff.mp hrow).1
      have hkey := h.1.1.keyed _ old hcurrent
      exact ⟨hkey.symm ▸ hlock, hkey.symm ▸ hcurrent⟩

theorem keeps_deactivate (bindingId : ℕ) : ledger.Keeps O i Idle (deactivate bindingId) := by
  refine Triple.seq (fun _ => Idle) (triple_query fun _ _ _ h _ => h) fun now => ?_
  refine keeps_quiet ((triple_lockMatching idle_lockable).bind fun found => ?_)
  cases found with
  | none => exact triple_pure fun c d h => h.1.quiet
  | some row =>
    dsimp only
    split
    · refine Triple.seq (fun _ => Quiet) (triple_emit fun c d h => ?_) fun _ => ?_
      · obtain ⟨hlock, hrow⟩ := h.2 row rfl
        rw [h.1.view] at hrow
        exact h.1.putBinding hlock hrow rfl
      · refine ((triple_lockMatching quiet_lockable).post fun _ _ _ h => h.1).bind fun health => ?_
        cases health with
        | none => exact triple_pure fun _ _ h => h
        | some state =>
          dsimp only
          split
          · exact Triple.seq (fun _ => Quiet) (triple_emit fun c d h => h.push trivial) fun _ =>
              triple_pure fun _ _ h => h
          · exact triple_pure fun _ _ h => h
    · exact triple_pure fun c d h => h.1.quiet

theorem keeps_evaluate (id : ℕ) (change : Option LiveStrategy.LiveStrategyActivation →
    LiveStrategy.LiveStrategyActivation) : ledger.Keeps O i Idle (evaluate id change) := by
  refine keeps_quiet ((triple_lockedActivation id).bind fun activation => ?_)
  exact triple_emit fun c d h => h.quiet.push trivial

theorem keeps_lockComparisonPlan (claim : BindingClaim) (due : Bool) :
    ledger.Keeps O i Idle (lockComparisonPlan claim due) := by
  refine keeps_quiet ((triple_lockedActivation claim.activationId).bind fun activation => ?_)
  refine ((triple_ownedBinding claim).post fun _ _ _ h => h.1).bind fun row => ?_
  cases activation with
  | none => exact triple_pure fun c d h => h.quiet
  | some activation =>
    cases row with
    | none => exact triple_pure fun c d h => h.quiet
    | some row =>
      dsimp only
      split
      · exact triple_pure fun c d h => h.quiet
      refine Triple.seq (fun _ => Idle) (triple_query fun _ _ _ h _ => h) fun corrupt => ?_
      split
      · exact triple_raise fun _ _ _ => trivial
      · exact triple_pure fun c d h => h.quiet

/-! ### Operators -/

section
variable {old x : Incident}

theorem mem_putIncident {rows : List Incident} {y : Incident} (hy : y ∈ putIncident x rows)
    (hid : x.id = old.id) (hcount : x.occurrenceCount = old.occurrenceCount)
    (hold : ∀ row ∈ rows, row.id = old.id → row = old) : ∃ row ∈ rows, row.id = y.id ∧
      row.occurrenceCount = y.occurrenceCount := by
  obtain ⟨row, hrow, rfl⟩ := List.mem_map.mp hy
  refine ⟨row, hrow, ?_⟩
  split
  · rename_i hsame
    obtain rfl := hold row hrow (hsame.trans hid)
    exact ⟨hid.symm, hcount.symm⟩
  · exact ⟨rfl, rfl⟩

theorem putIncident_ids (rows : List Incident) :
    (putIncident x rows).map Incident.id = rows.map Incident.id := by
  unfold putIncident
  rw [List.map_map]
  refine List.map_congr_left fun row _ => ?_
  rw [Function.comp_apply]
  split
  · rename_i hsame
    exact hsame.symm
  · rfl

theorem mem_putIncident_of_ne {rows : List Incident} {row : Incident} (hrow : row ∈ rows)
    (hne : row.id ≠ x.id) : row ∈ putIncident x rows :=
  List.mem_map.mpr ⟨row, hrow, if_neg hne⟩

/-- The change of an incident that the session has locked, when it counts nothing. -/
theorem Idle.putIncident (h : Idle c d) (hlock : .incident old.id ∈ c.held) (hold : old ∈ d.incidents)
    (hid : x.id = old.id) (hcount : x.occurrenceCount = old.occurrenceCount) :
    Committable i (c.push (.putIncident x)) d := by
  intro d' he
  have hold' := (he.1.incident old.id hlock old hold rfl).1
  have hd := he.2
  have hview : (c.push (.putIncident x)).view d' =
      { d' with incidents := MonitoringDatabase.putIncident x d'.incidents } := by
    rw [Ctx.view_push, Idle.view (idle_stable h he)]
    rfl
  have hsame (row : Incident) (hrow : row ∈ d'.incidents) (hrowId : row.id = old.id) : row = old :=
    hd.same_row hrow hold' hrowId
  have hrows {y : Incident} (hy : y ∈ MonitoringDatabase.putIncident x d'.incidents) :
      ∃ row ∈ d'.incidents, row.id = y.id ∧ row.occurrenceCount = y.occurrenceCount :=
    mem_putIncident hy hid hcount hsame
  have hunused {n : ℕ} (hu : d'.Unused n) :
      ({ d' with incidents := MonitoringDatabase.putIncident x d'.incidents } :
        MonitoringDatabase).Unused n := by
    refine ⟨hu.findings, fun y hy => ?_, hu.bindings⟩
    obtain ⟨row, hrow, hrowId, -⟩ := hrows hy
    exact hrowId ▸ hu.incidents row hrow
  rw [hview]
  refine ⟨?_, fun j _ held owned hheld _ => ?_, fun n _ hu => hunused hu, .inl ⟨rfl, rfl, fun y hy => hrows hy⟩⟩
  · refine { hd with ids := ?_, targets := fun e he => ?_, counted := fun y hy => ?_ }
    · exact (putIncident_ids d'.incidents).symm ▸ hd.ids
    · obtain ⟨row, hrow, hrowId⟩ := hd.targets e he
      have hmem : e.incidentId ∈ (MonitoringDatabase.putIncident x d'.incidents).map Incident.id := by
        rw [putIncident_ids]
        exact List.mem_map.mpr ⟨row, hrow, hrowId⟩
      exact List.mem_map.mp hmem
    · obtain ⟨row, hrow, hrowId, hrowCount⟩ := hrows hy
      rw [← hrowCount, ← hrowId]
      exact hd.counted row hrow
  · have hkept : Others held owned d' d' := .refl
    refine { hkept with incident := fun id hlock' row hrow hrowId => ?_, names := fun n _ hu => hunused hu }
    refine ⟨mem_putIncident_of_ne hrow fun hchanged => ?_, rfl⟩
    exact hheld _ hlock' (hrowId ▸ hchanged.trans hid ▸ hlock)

end

theorem keeps_changeIncident (incidentId : ℕ) {change : Incident → Except MonitoringError Incident}
    (hchange : ∀ old x, change old = .ok x → x.id = old.id ∧ x.occurrenceCount = old.occurrenceCount) :
    ledger.Keeps O i Idle (changeIncident incidentId change) := by
  refine triple_inTransaction ((triple_lockIncidents idle_lockable
    (fun _ _ h => by rw [h.view]) _).bind fun rows => ?_)
  cases hhead : rows.head? with
  | none => exact triple_raise fun _ _ _ => trivial
  | some old =>
    refine Triple.seq (fun x c d => Idle c d ∧ (.incident old.id ∈ c.held ∧ old ∈ d.incidents) ∧
      x.id = old.id ∧ x.occurrenceCount = old.occurrenceCount)
      (triple_ofExcept fun x hx c d h => ⟨h.1, (h.2 old (List.mem_of_mem_head? hhead)).1, hchange old x hx⟩)
      fun x => ?_
    exact triple_emit fun c d h => h.1.putIncident h.2.1.1 h.2.1.2 h.2.2.1 h.2.2.2

theorem keeps_acknowledge (incidentId : ℕ) (actor : String) (note : Option String) :
    ledger.Keeps O i Idle (acknowledge incidentId actor note) := by
  unfold acknowledge
  split
  · exact triple_raise fun _ _ h => h
  split
  · exact triple_raise fun _ _ h => h
  refine keeps_changeIncident incidentId fun old x hx => ?_
  split at hx
  · cases hx
  split at hx
  · cases hx
    exact ⟨rfl, rfl⟩
  · cases hx
    exact ⟨rfl, rfl⟩

theorem keeps_resolve (incidentId : ℕ) (actor : String) (note : Option String) :
    ledger.Keeps O i Idle (resolve incidentId actor note) := by
  unfold resolve
  split
  · exact triple_raise fun _ _ h => h
  split
  · exact triple_raise fun _ _ h => h
  refine Triple.seq (fun _ => Idle) (triple_query fun _ _ _ h _ => h) fun now => ?_
  refine keeps_changeIncident incidentId fun old x hx => ?_
  split at hx
  · cases hx
    exact ⟨rfl, rfl⟩
  · cases hx
    exact ⟨rfl, rfl⟩

/-! ### Arrivals of runs -/

/-- The findings of a run that is to arrive. -/
structure Arriving (runId : String) (findings : List Finding) (c : Ctx MonitoringWrite MonitoringLock)
    (d : MonitoringDatabase) : Prop where
  idle : Idle c d
  named : ∀ f ∈ findings, f.comparisonRunId = runId ∧ f.id ∈ c.owned ∧ d.Unused f.id
  distinct : (findings.map Finding.id).Nodup

theorem arriving_lockable (runId : String) (findings : List Finding) :
    ledger.Lockable i (Arriving runId findings) where
  stable _ _ _ h he := ⟨idle_stable h.idle he, fun f hf =>
    ⟨(h.named f hf).1, (h.named f hf).2.1, he.1.names _ (h.named f hf).2.1 (h.named f hf).2.2⟩, h.distinct⟩
  hold _ _ _ h := ⟨h.idle, h.named, h.distinct⟩

/-- A run of an id that is not there arrives with its findings. -/
theorem Arriving.addRun {run : ComparisonRun} {findings : List Finding} (h : Arriving run.runId findings c d)
    (hlock : .run run.runId ∈ c.held) (hnew : ¬ d.Ran run.runId) :
    Committable i (c.push (.addRun run findings)) d := by
  intro d' he
  obtain ⟨hidle, hnamed, hdistinct⟩ := (arriving_lockable run.runId findings).stable c d d' h he
  have hnew' : ¬ d'.Ran run.runId := fun hran => hnew (he.1.run _ hlock hran)
  have hd := he.2
  have hview : (c.push (.addRun run findings)).view d' =
      { d' with runs := d'.runs ++ [run], findings := d'.findings ++ findings } := by
    rw [Ctx.view_push, hidle.view]
    rfl
  have hran {runId : String} (hr : d'.Ran runId) : ({ d' with
      runs := d'.runs ++ [run], findings := d'.findings ++ findings } : MonitoringDatabase).Ran runId := by
    obtain ⟨r, hr, hid⟩ := hr
    exact ⟨r, List.mem_append_left _ hr, hid⟩
  have hunused {n : ℕ} (hn : n ∉ c.owned) (hu : d'.Unused n) : ({ d' with
      runs := d'.runs ++ [run], findings := d'.findings ++ findings } : MonitoringDatabase).Unused n := by
    refine ⟨fun f hf => ?_, hu.incidents, hu.bindings⟩
    rcases List.mem_append.mp hf with hf | hf
    · exact hu.findings f hf
    · exact fun hid => hn (hid ▸ (hnamed f hf).2.1)
  rw [hview]
  refine ⟨?_, fun j _ held owned hheld howned => ?_, fun n hn hu => hunused hn hu,
    .inl ⟨rfl, rfl, fun y hy => ⟨y, hy, rfl, rfl⟩⟩⟩
  · refine { hd with
      findings := ?_
      reported := fun f hf => ?_
      compared := fun runId hr => hran (hd.compared runId hr)
      evident := fun f hf => ?_
      found := fun id hid => ?_ }
    · rw [List.map_append, List.nodup_append]
      refine ⟨hd.findings, hdistinct, fun id hid other hother hsame => ?_⟩
      obtain ⟨f, hf, rfl⟩ := List.mem_map.mp hid
      obtain ⟨g, hg, rfl⟩ := List.mem_map.mp hother
      exact (hnamed g hg).2.2.findings f hf hsame
    · rcases List.mem_append.mp hf with hf | hf
      · exact hran (hd.reported f hf)
      · exact ⟨run, List.mem_append_right _ List.mem_cons_self, (hnamed f hf).1.symm⟩
    · rcases List.mem_append.mp hf with hf | hf
      · exact hd.evident f hf
      · refine ⟨fun hevident => ?_, fun hassessed => ?_⟩
        · obtain ⟨g, hg, hid⟩ := hd.found f.id hevident
          exact absurd hid ((hnamed f hf).2.2.findings g hg)
        · exact absurd ((hnamed f hf).1 ▸ hd.compared _ hassessed) hnew'
    · obtain ⟨f, hf, hfid⟩ := hd.found id hid
      exact ⟨f, List.mem_append_left _ hf, hfid⟩
  · have hkept : Others held owned d' d' := .refl
    refine { hkept with
      runs := fun runId hr => ⟨hran hr, ?_⟩
      findings := fun f hf => List.mem_append_left _ hf
      run := fun runId hlock' hr => ?_
      names := fun n hn hu => hunused (howned n hn) hu }
    · have hnone : findings.filter (fun f => f.comparisonRunId = runId) = [] := by
        refine List.filter_eq_nil_iff.mpr fun f hf hrun => ?_
        exact hnew' ((hnamed f hf).1 ▸ of_decide_eq_true hrun ▸ hr)
      unfold MonitoringDatabase.reported
      rw [List.filter_append, hnone, List.append_nil]
    · obtain ⟨r, hr, hid⟩ := hr
      rcases List.mem_append.mp hr with hr | hr
      · exact ⟨r, hr, hid⟩
      · obtain rfl := List.mem_singleton.mp hr
        exact absurd hlock (hheld _ (hid ▸ hlock'))

theorem keeps_compareActivation (run : ComparisonRun) (findings : List Finding) :
    ledger.Keeps O i Idle (compareActivation run findings) := by
  refine triple_inTransaction (((triple_lockMatching idle_lockable).post fun _ _ _ h => h.1).bind
    fun existing => ?_)
  cases existing with
  | some _ => exact triple_pure fun c d h => h.quiet.committable
  | none =>
    have hdraw (found : List Finding) (f : Finding) : ledger.Triple O i (fun _ _ => True)
        (Arriving run.runId found) (do
          let id ← draw
          pure (some { f with id := id, comparisonRunId := run.runId }) : MonitoringTask (Option Finding))
        fun y => Arriving run.runId (found ++ y.toList) := by
      refine triple_draw (fun c d d' n h he hn hu => ?_) |>.bind fun n => triple_pure fun _ _ h => h
      obtain ⟨hidle, hnamed, hdistinct⟩ := (arriving_lockable run.runId found).stable c d d' h he
      refine ⟨hidle, fun g hg => ?_, ?_⟩
      · rcases List.mem_append.mp hg with hg | hg
        · exact ⟨(hnamed g hg).1, List.mem_cons_of_mem _ (hnamed g hg).2.1, (hnamed g hg).2.2⟩
        · obtain rfl := List.mem_singleton.mp hg
          exact ⟨rfl, List.mem_cons_self, hu⟩
      · rw [List.map_append, List.nodup_append]
        refine ⟨hdistinct, List.nodup_singleton _, fun id hid other hother hsame => ?_⟩
        obtain ⟨g, hg, rfl⟩ := List.mem_map.mp hid
        obtain rfl := List.mem_singleton.mp hother
        exact hn (hsame ▸ (hnamed g hg).2.1)
    refine Triple.bind ((triple_collected hdraw [] findings).pre fun c d h => ?_) fun found => ?_
    · exact ⟨h, fun f hf => absurd hf List.not_mem_nil, List.nodup_nil⟩
    rw [List.nil_append]
    have hPre : ledger.Lockable i fun c d => Arriving run.runId found c d ∧ .run run.runId ∈ c.held :=
      ⟨fun c d d' h he => ⟨(arriving_lockable run.runId found).stable c d d' h.1 he, h.2⟩,
        fun c d l h => ⟨(arriving_lockable (i := i) run.runId found).hold c d l h.1,
          List.mem_cons_of_mem _ h.2⟩⟩
    refine Triple.seq (fun _ c d => Arriving run.runId found c d ∧ .run run.runId ∈ c.held)
      (triple_acquire fun c d d' h he => ?_) fun _ => ?_
    · have hlater := (arriving_lockable run.runId found).stable c d d' h he
      exact ⟨(arriving_lockable (i := i) run.runId found).hold c d' _ hlater, List.mem_cons_self⟩
    refine (triple_look hPre.stable).bind fun s => ?_
    split
    · exact triple_pure fun c d h => h.1.1.idle.quiet.committable
    · rename_i hnew
      refine triple_emit fun c d h => ?_
      obtain ⟨⟨harriving, hlock⟩, rfl⟩ := h
      refine harriving.addRun hlock fun ⟨r, hr, hid⟩ => hnew (List.any_eq_true.mpr ⟨r, ?_, decide_eq_true hid⟩)
      rw [harriving.idle.view]
      exact hr

/-! ### Every session -/

theorem keeps_processRuns (settings : MonitoringSettings) (claim : BindingClaim) (fuel processed : ℕ) :
    ledger.Keeps O i Idle (processRuns settings claim fuel processed) := by
  induction fuel generalizing processed with
  | zero => exact triple_pure fun _ _ h => h
  | succ fuel ih =>
    refine (Keeps.attempt (keeps_processOneComparisonRun settings claim)).bind fun r => ?_
    cases r with
    | error failure =>
      exact (keeps_recordClaimError claim failure).bind fun _ => triple_pure fun _ _ h => h
    | ok more =>
      cases more with
      | false => exact triple_pure fun _ _ h => h
      | true =>
        refine (keeps_renewClaim settings claim).bind fun renewed => ?_
        split
        · exact ih (processed + 1)
        · exact triple_pure fun _ _ h => h

theorem keeps_processBinding (settings : MonitoringSettings) (maxComparisons bindingId : ℕ)
    (workerId : String) :
    ledger.Keeps O i Idle (processBinding settings maxComparisons bindingId workerId) := by
  refine (keeps_claimBinding settings bindingId workerId).bind fun claim => ?_
  cases claim with
  | none => exact triple_pure fun _ _ h => h
  | some claim =>
    have hrelease (processed : ℕ) : ledger.Keeps O i Idle (do
        releaseClaim claim
        pure processed : MonitoringTask ℕ) :=
      (keeps_releaseClaim claim).bind fun _ => triple_pure fun _ _ h => h
    refine (keeps_processRuns settings claim maxComparisons 0).bind fun r => ?_
    obtain ⟨processed, failed⟩ := r
    cases failed with
    | true => exact hrelease processed
    | false =>
      refine (Keeps.attempt (keeps_finalizeCycle claim)).bind fun r => ?_
      cases r with
      | ok _ => exact hrelease processed
      | error failure => exact (keeps_recordClaimError claim failure).bind fun _ => hrelease processed

theorem keeps_monitorActive (settings : MonitoringSettings) (limit maxComparisons : ℕ) :
    ledger.Keeps O i Idle (monitorActive settings limit maxComparisons) := by
  refine ((triple_look idle_lockable.stable).post fun _ _ _ h => h.1).bind fun s => ?_
  refine Triple.seq (fun _ => Idle) (triple_draw fun c d d' n h he _ _ => ⟨he.2, h.2⟩) fun worker => ?_
  exact Keeps.forEach (fun bindingId => (Keeps.attempt (keeps_processBinding settings maxComparisons bindingId
    _)).bind fun _ => triple_pure fun _ _ h => h) _

theorem keeps_produceComparison (settings : MonitoringSettings) (bindingId : ℕ) (workerId : String)
    (due : Bool) (run : ComparisonRun) (findings : List Finding) :
    ledger.Keeps O i Idle (produceComparison settings bindingId workerId due run findings) := by
  refine (keeps_claimBinding settings bindingId workerId).bind fun claim => ?_
  cases claim with
  | none => exact triple_pure fun _ _ h => h
  | some claim =>
    refine (Keeps.attempt ((keeps_lockComparisonPlan claim due).bind fun planned => ?_)).bind fun r => ?_
    · split
      · exact keeps_compareActivation run findings
      · exact triple_pure fun _ _ h => h
    · cases r with
      | ok _ => exact keeps_releaseClaim claim
      | error failure => exact (keeps_recordClaimError claim failure).bind fun _ => keeps_releaseClaim claim

theorem keeps_program {p : MonitoringTask Unit} (h : MonitoringProgram i p) : ledger.Keeps O i Idle p := by
  cases h with
  | monitorActive n settings limit maxComparisons => exact keeps_monitorActive settings limit maxComparisons
  | produceComparison n settings bindingId workerId due run findings =>
    exact keeps_produceComparison settings bindingId workerId due run findings
  | compareActivation n run findings => exact keeps_compareActivation run findings
  | register n r => exact keeps_register r
  | deactivate n bindingId => exact (keeps_deactivate bindingId).bind fun _ => triple_pure fun _ _ h => h
  | acknowledge n incidentId actor note => exact keeps_acknowledge incidentId actor note
  | resolve n incidentId actor note => exact keeps_resolve incidentId actor note
  | evaluate n id change => exact keeps_evaluate id change

theorem consistent_initial {d : MonitoringDatabase} (h : monitoring.init d) :
    d.Consistent ∧ ∀ n, d.Unused n := by
  obtain ⟨hbindings, hruns, hfindings, hincidents, hevidence, hassessments, -⟩ := h
  have hbinding (id : ℕ) : d.binding id = none := by
    unfold MonitoringDatabase.binding
    rw [hbindings]
    exact AList.lookup_empty id
  refine ⟨?_, fun n => ⟨?_, ?_, hbinding n⟩⟩
  · refine ⟨fun id row hrow => ?_, ?_, ?_, ?_, ?_, fun runId ⟨a, ha, _⟩ => ?_, ?_, ?_, fun id ⟨e, he, _⟩ => ?_,
      ?_, ?_⟩
    · rw [hbinding id] at hrow
      cases hrow
    · simp [hincidents]
    · simp [hfindings]
    · simp [hfindings]
    · simp [hassessments]
    · simp [hassessments] at ha
    · simp [hevidence]
    · simp [hfindings]
    · simp [hevidence] at he
    · simp [hevidence]
    · simp [hincidents]
  · simp [hfindings]
  · simp [hincidents]

/-- A run is assessed once, with all of its evidence, and whoever commits evidence may. -/
structure AssessedOnce (w : World MonitoringParty MonitoringDatabase MonitoringWrite MonitoringLock
    MonitoringAnswer MonitoringFailure) : Prop where
  assessments : (w.db.assessments.map MonitoringAssessment.comparisonRunId).Nodup
  evidence : (w.db.evidence.filterMap IncidentEvidence.findingId).Nodup
  complete : ∀ f ∈ w.db.findings, w.db.Evident f.id ↔ w.db.Assessed f.comparisonRunId
  counted : ∀ i ∈ w.db.incidents, i.occurrenceCount = w.db.occurrences i.id
  booked : ∀ l w', monitoring.Step w l w' → w'.db = w.db ∨
    ∃ i, l = .run i ∧ Booked (w.sessions i).ctx.held w.db w'.db

theorem assessed_exactly_once : monitoring.Invariant AssessedOnce := by
  intro w hw
  have hok : Ok monitoring ledger w := Protocol.sound (fun i p d hp hd => (keeps_program hp).rest ⟨hd, rfl⟩)
    (fun d hd => consistent_initial hd) w hw
  refine ⟨hok.inv.assessments, hok.inv.links, hok.inv.evident, hok.inv.counted, fun l w' hstep => ?_⟩
  rcases hstep.db_cases with hsame | ⟨i, k, hl, hk, hdb⟩
  · exact .inl hsame
  · exact .inr ⟨i, hl, hdb ▸ hok.commit hk⟩

end Quantive.Monitoring
