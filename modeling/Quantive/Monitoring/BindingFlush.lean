import Quantive.Monitoring.BindingCycle

/-!
# The flush of a claimed binding

What the flush of a transaction writes, and that its commit keeps the tables consistent whatever the
others have committed since the transaction began.
-/

namespace Quantive.Monitoring
open Quantive.ReadCommitted Prog Protocol MonitoringDatabase MonitoringTask

variable {i : MonitoringParty} {c : Ctx MonitoringWrite MonitoringLock} {d d' : MonitoringDatabase}
  {O : (q : MonitoringQuestion) → MonitoringAnswer q → Prop} {α : Type}
  {J Pre : Ctx MonitoringWrite MonitoringLock → MonitoringDatabase → Prop}
  {claim : BindingClaim} {linked : List ℕ} {w : BindingWork} {F : MonitoringDatabase → Prop}

/-! ### What the writes of a flush come to -/

def applyAll (log : List MonitoringWrite) (d : MonitoringDatabase) : MonitoringDatabase :=
  log.foldl (fun d x => Store.apply x d) d

theorem applyAll_append (log log' : List MonitoringWrite) (d : MonitoringDatabase) :
    applyAll (log ++ log') d = applyAll log' (applyAll log d) := List.foldl_append

theorem mem_assessments_applyAll (log : List MonitoringWrite) {a : MonitoringAssessment}
    (h : a ∈ d.assessments) : a ∈ (applyAll log d).assessments := by
  induction log generalizing d with
  | nil => exact h
  | cons x log ih =>
    refine ih (d := Store.apply x d) ?_
    cases x with
    | addAssessment b => exact List.mem_append_left _ h
    | _ => exact h

theorem mem_evidence_applyAll (log : List MonitoringWrite) {e : IncidentEvidence}
    (h : e ∈ d.evidence ∨ .addEvidence e ∈ log) : e ∈ (applyAll log d).evidence := by
  induction log generalizing d with
  | nil => exact h.resolve_right List.not_mem_nil
  | cons x log ih =>
    refine ih (d := Store.apply x d) ?_
    rcases h with h | h
    · cases x with
      | addEvidence b => exact .inl (List.mem_append_left _ h)
      | _ => exact .inl h
    · rcases List.mem_cons.mp h with rfl | h
      · exact .inl (List.mem_append_right _ List.mem_cons_self)
      · exact .inr h

theorem applyAll_addIncidents (xs : List Incident) (d : MonitoringDatabase) :
    applyAll (xs.map .addIncident) d = { d with incidents := d.incidents ++ xs } := by
  induction xs generalizing d with
  | nil => simp [applyAll]
  | cons x xs ih =>
    refine (ih (Store.apply (MonitoringWrite.addIncident x) d)).trans ?_
    simp [Store.apply, MonitoringDatabase.apply]

theorem applyAll_putIncidents (xs : List Incident) (d : MonitoringDatabase) :
    applyAll (xs.map .putIncident) d =
      { d with incidents := xs.foldl (fun rows x => putIncident x rows) d.incidents } := by
  induction xs generalizing d with
  | nil => rfl
  | cons x xs ih => exact ih (Store.apply (MonitoringWrite.putIncident x) d)

theorem applyAll_addAssessments (xs : List MonitoringAssessment) (d : MonitoringDatabase) :
    applyAll (xs.map .addAssessment) d = { d with assessments := d.assessments ++ xs } := by
  induction xs generalizing d with
  | nil => simp [applyAll]
  | cons x xs ih =>
    refine (ih (Store.apply (MonitoringWrite.addAssessment x) d)).trans ?_
    simp [Store.apply, MonitoringDatabase.apply]

theorem applyAll_addEvidence (xs : List IncidentEvidence) (d : MonitoringDatabase) :
    applyAll (xs.map .addEvidence) d = { d with evidence := d.evidence ++ xs } := by
  induction xs generalizing d with
  | nil => simp [applyAll]
  | cons x xs ih =>
    refine (ih (Store.apply (MonitoringWrite.addEvidence x) d)).trans ?_
    simp [Store.apply, MonitoringDatabase.apply]

/-- The changed objects, the oldest first, make of the rows what the session holds for them. -/
theorem putIncidents_reverse (s : UnitOfWork) (rows : List Incident) :
    s.changed.reverse.foldl (fun rows x => putIncident x rows) rows = rows.map s.object := by
  rw [List.foldl_reverse]
  obtain ⟨db, changed, addedIncidents, addedEvidence⟩ := s
  induction changed with
  | nil => exact (map_object_unchanged rfl rows).symm
  | cons x changed ih =>
    rw [List.foldr_cons, ih]
    unfold putIncident
    rw [List.map_map]
    refine List.map_congr_left fun row _ => ?_
    have hnewest := object_of_changed (s := ⟨db, changed, addedIncidents, addedEvidence⟩)
      (t := ⟨db, x :: changed, addedIncidents, addedEvidence⟩) (x := x) rfl row
    have hid := object_id ⟨db, changed, addedIncidents, addedEvidence⟩ row
    rw [hnewest, Function.comp_apply, hid]
    by_cases hsame : row.id = x.id
    · rw [if_pos hsame, if_pos hsame.symm]
    · rw [if_neg hsame, if_neg fun h => hsame h.symm]

/-- The tables behind the flush of a transaction. -/
def MonitoringDatabase.flushed (d : MonitoringDatabase) (w : BindingWork)
    (assessments : List MonitoringAssessment) (health : ℕ → Option StrategyHealthState) :
    MonitoringDatabase := { d with
  bindings := d.bindings.insert w.row.binding.id w.written
  incidents := (d.incidents ++ w.session.addedIncidents).map w.session.object
  evidence := d.evidence ++ w.session.addedEvidence
  assessments := d.assessments ++ assessments
  health := health
  history := d.history ++ [w.claim] }

/-! ### The flush -/

/-- The transaction amid its flush: `log` is what the flush has written. -/
structure Flushing (F : MonitoringDatabase → Prop) (claim : BindingClaim) (linked : List ℕ) (w : BindingWork)
    (assessments : List MonitoringAssessment) (evidence : List IncidentEvidence) (log : List MonitoringWrite)
    (c : Ctx MonitoringWrite MonitoringLock) (d : MonitoringDatabase) : Prop where
  working : Working claim linked w c d
  known : F d
  wrote : ∃ before, HealthOnly before ∧ c.log = before ++ log
  assessing : ∀ a ∈ assessments,
    .assessment a.comparisonRunId ∈ c.held ∧ ¬ d.Assessed a.comparisonRunId
  linking : ∀ e ∈ evidence, ∀ id, e.findingId = some id → .findingEvidence id ∈ c.held ∧ ¬ d.Evident id
  distinct : (evidence.filterMap IncidentEvidence.findingId).Nodup

variable {assessments : List MonitoringAssessment} {evidence : List IncidentEvidence}
  {log : List MonitoringWrite}

theorem Flushing.lockable (hF : Fixed F) :
    ledger.Lockable i (Flushing F claim linked w assessments evidence log) where
  stable c d d' h he := by
    refine ⟨h.working.stable he, hF _ _ _ _ he.1 h.known, h.wrote, fun a ha => ?_, fun e hmem id hid => ?_,
      h.distinct⟩
    · obtain ⟨hlock, hnew⟩ := h.assessing a ha
      exact ⟨hlock, fun hlater => hnew (he.1.assessment _ hlock hlater)⟩
    · obtain ⟨hlock, hnew⟩ := h.linking e hmem id hid
      exact ⟨hlock, fun hlater => hnew (he.1.finding _ hlock hlater)⟩
  hold c d l h := ⟨h.working.extend (fun _ h => List.mem_cons_of_mem _ h) fun _ h => h, h.known, h.wrote,
    fun a ha => ⟨List.mem_cons_of_mem _ (h.assessing a ha).1, (h.assessing a ha).2⟩,
    fun e hmem id hid => ⟨List.mem_cons_of_mem _ (h.linking e hmem id hid).1, (h.linking e hmem id hid).2⟩,
    h.distinct⟩

theorem Flushing.push (h : Flushing F claim linked w assessments evidence log c d) (x : MonitoringWrite) :
    Flushing F claim linked w assessments evidence (log ++ [x]) (c.push x) d := by
  obtain ⟨before, hbefore, hlog⟩ := h.wrote
  refine ⟨h.working.extend (fun _ h => h) fun _ h => h, h.known, ⟨before, hbefore, ?_⟩, h.assessing, h.linking,
    h.distinct⟩
  rw [Ctx.push_log, hlog, List.append_assoc]

theorem Flushing.view (h : Flushing F claim linked w assessments evidence log c d) :
    ∃ health, c.view d = applyAll log { d with health := health } := by
  obtain ⟨before, hbefore, hlog⟩ := h.wrote
  obtain ⟨health, hview⟩ := healthOnly_foldl hbefore d
  refine ⟨health, ?_⟩
  unfold Ctx.view
  rw [hlog, ← hview]
  exact applyAll_append before log d

theorem triple_emitAll {γ : Type} (write : γ → MonitoringWrite) (xs : List γ) :
    ledger.Triple O i J (Flushing F claim linked w assessments evidence log)
      (forEach (fun x => emit (write x)) xs : MonitoringTask Unit) fun _ =>
        Flushing F claim linked w assessments evidence (log ++ xs.map write) := by
  induction xs generalizing log with
  | nil => exact triple_pure fun c d h => (List.append_nil log).symm ▸ h
  | cons x xs ih =>
    refine Triple.seq (fun _ => Flushing F claim linked w assessments evidence (log ++ [write x]))
      (triple_emit fun c d h => h.push _) fun _ => ?_
    have hrest := @ih (log ++ [write x])
    rw [List.append_assoc] at hrest
    exact hrest

theorem triple_insertIncidents (hF : Fixed F) (xs : List Incident) :
    ledger.Triple O i (fun _ _ => True) (Flushing F claim linked w assessments evidence log)
      (forEach insertIncident xs) fun _ =>
        Flushing F claim linked w assessments evidence (log ++ xs.map .addIncident) := by
  induction xs generalizing log with
  | nil => exact triple_pure fun c d h => (List.append_nil log).symm ▸ h
  | cons x xs ih =>
    have hPre : ledger.Lockable i (Flushing F claim linked w assessments evidence log) :=
      Flushing.lockable hF
    have hinsert : ledger.Triple O i (fun _ _ => True)
        (Flushing F claim linked w assessments evidence log) (insertIncident x) fun _ =>
          Flushing F claim linked w assessments evidence (log ++ [.addIncident x]) := by
      refine Triple.seq (fun _ => Flushing F claim linked w assessments evidence log)
        (triple_acquire fun c d d' h he => hPre.hold c d' _ (hPre.stable c d d' h he)) fun _ => ?_
      refine ((triple_look hPre.stable).post fun _ _ _ h => h.1).bind fun s => ?_
      split
      · exact triple_raise fun _ _ _ => trivial
      · exact triple_emit fun c d h => h.push _
    have hrest := @ih (log ++ [.addIncident x])
    rw [List.append_assoc] at hrest
    exact hinsert.bind fun _ => hrest

theorem triple_insertAssessment (hF : Fixed F) (assessment : Option MonitoringAssessment) :
    ledger.Triple O i (fun _ _ => True) (Flushing F claim linked w [] evidence log)
      (forEach insertAssessment assessment.toList) fun _ =>
        Flushing F claim linked w assessment.toList evidence (log ++ assessment.toList.map .addAssessment) := by
  cases assessment with
  | none => exact triple_pure fun c d h => (List.append_nil log).symm ▸ h
  | some a =>
    have hPre : ledger.Lockable i fun c d => Flushing F claim linked w [] evidence log c d ∧
        .assessment a.comparisonRunId ∈ c.held :=
      ⟨fun c d d' h he => ⟨(Flushing.lockable hF).stable c d d' h.1 he, h.2⟩,
        fun c d l h => ⟨(Flushing.lockable (i := i) hF).hold c d l h.1, List.mem_cons_of_mem _ h.2⟩⟩
    refine Triple.seq (fun _ => Flushing F claim linked w [a] evidence
      (log ++ [MonitoringWrite.addAssessment a])) ?_ fun _ => triple_pure fun _ _ h => h
    refine Triple.seq (fun _ c d => Flushing F claim linked w [] evidence log c d ∧
      .assessment a.comparisonRunId ∈ c.held) (triple_acquire fun c d d' h he => ?_) fun _ => ?_
    · have hlater := (Flushing.lockable hF).stable c d d' h he
      exact ⟨(Flushing.lockable (i := i) hF).hold c d' _ hlater, List.mem_cons_self⟩
    refine (triple_look hPre.stable).bind fun s => ?_
    split
    · exact triple_raise fun _ _ _ => trivial
    · rename_i hnew
      refine triple_emit fun c d h => ?_
      obtain ⟨⟨hflush, hlock⟩, rfl⟩ := h
      have hunassessed : ¬ d.Assessed a.comparisonRunId := by
        rintro ⟨b, hb, hrun⟩
        obtain ⟨health, hview⟩ := hflush.view
        have hb' : b ∈ (c.view d).assessments := by
          rw [hview]
          exact mem_assessments_applyAll log hb
        exact hnew (List.any_eq_true.mpr ⟨b, hb', decide_eq_true hrun⟩)
      have hpushed := hflush.push (.addAssessment a)
      refine { hpushed with assessing := fun b hb => ?_ }
      obtain rfl := List.mem_singleton.mp hb
      exact ⟨hlock, hunassessed⟩

/-- The evidence that the flush has inserted is in its log. -/
theorem triple_insertEvidence (hF : Fixed F) (e : IncidentEvidence) :
    ledger.Triple O i (fun _ _ => True) (Flushing F claim linked w assessments evidence
        (log ++ evidence.map .addEvidence)) (insertEvidence e) fun _ =>
      Flushing F claim linked w assessments (evidence ++ [e]) (log ++ (evidence ++ [e]).map .addEvidence) := by
  have hkept : ledger.Lockable i (Flushing F claim linked w assessments evidence
      (log ++ evidence.map .addEvidence)) := Flushing.lockable hF
  have hPre : ledger.Lockable i fun c d => Flushing F claim linked w assessments evidence
      (log ++ evidence.map .addEvidence) c d ∧ ∀ id ∈ e.findingId.toList, .findingEvidence id ∈ c.held :=
    ⟨fun c d d' h he => ⟨hkept.stable c d d' h.1 he, h.2⟩,
      fun c d l h => ⟨hkept.hold c d l h.1, fun id hid => List.mem_cons_of_mem _ (h.2 id hid)⟩⟩
  refine Triple.seq (fun _ => Flushing F claim linked w assessments evidence (log ++ evidence.map .addEvidence))
    (triple_acquire fun c d d' h he => hkept.hold c d' _ (hkept.stable c d d' h he)) fun _ => ?_
  refine (triple_acquireAll hkept MonitoringLock.findingEvidence e.findingId.toList).bind fun _ => ?_
  refine (triple_look hPre.stable).bind fun s => ?_
  split
  · exact triple_raise fun _ _ _ => trivial
  split
  · exact triple_raise fun _ _ _ => trivial
  rename_i hnew
  refine triple_emit fun c d h => ?_
  obtain ⟨⟨hflush, hlock⟩, rfl⟩ := h
  have hunlinked : ∀ id, e.findingId = some id → ∀ e' ∈ (c.view d).evidence, e'.findingId ≠ some id := by
    intro id hid e' he' hlink
    refine hnew (Bool.and_eq_true_iff.mpr ⟨by rw [hid]; rfl, List.any_eq_true.mpr ⟨e', he', ?_⟩⟩)
    exact decide_eq_true (hlink.trans hid.symm)
  obtain ⟨health, hview⟩ := hflush.view
  have hpushed := hflush.push (.addEvidence e)
  rw [List.append_assoc] at hpushed
  rw [List.map_append]
  refine { hpushed with linking := fun e' he' id hid => ?_, distinct := ?_ }
  · rcases List.mem_append.mp he' with he' | he'
    · exact hflush.linking e' he' id hid
    · obtain rfl := List.mem_singleton.mp he'
      refine ⟨hlock id (Option.mem_toList.mpr hid), fun ⟨old, hold, hlink⟩ => ?_⟩
      refine hunlinked id hid old ?_ hlink
      rw [hview]
      exact mem_evidence_applyAll _ (.inl hold)
  · rw [List.filterMap_append, List.nodup_append]
    refine ⟨hflush.distinct, ?_, fun id hid other hother hsame => ?_⟩
    · cases hlink : e.findingId with
      | none => simp [hlink]
      | some id => simp [hlink]
    · obtain ⟨e', he', hlink⟩ := List.mem_filterMap.mp hid
      obtain ⟨e'', he'', hlink''⟩ := List.mem_filterMap.mp hother
      obtain rfl := List.mem_singleton.mp he''
      refine hunlinked other hlink'' e' ?_ (hsame ▸ hlink)
      rw [hview]
      exact mem_evidence_applyAll _ (.inr (List.mem_append_right _ (List.mem_map_of_mem he')))

/-- What a flush writes. -/
def BindingWork.writes (w : BindingWork) (assessments : List MonitoringAssessment) : List MonitoringWrite :=
  [MonitoringWrite.note w.claim] ++ w.session.addedIncidents.map .addIncident ++
    w.session.changed.reverse.map .putIncident ++ assessments.map .addAssessment ++
    w.session.addedEvidence.map .addEvidence ++
    [MonitoringWrite.putHealth w.row.binding.activationId ⟨w.row.binding.id, w.session.db.health⟩] ++
    [MonitoringWrite.putBinding w.written]

theorem applyAll_writes (w : BindingWork) (assessments : List MonitoringAssessment) (d : MonitoringDatabase) :
    ∃ health, applyAll (w.writes assessments) d = d.flushed w assessments health := by
  unfold BindingWork.writes
  rw [applyAll_append, applyAll_append, applyAll_append, applyAll_append, applyAll_append, applyAll_append,
    applyAll_addIncidents, applyAll_putIncidents, applyAll_addAssessments, applyAll_addEvidence,
    putIncidents_reverse]
  exact ⟨_, rfl⟩

theorem triple_flushing (hF : Fixed F) (assessment : Option MonitoringAssessment) :
    ledger.Triple O i (fun _ _ => True) (Busy F claim linked w) (flush w assessment) fun _ =>
      Flushing F claim linked w assessment.toList w.session.addedEvidence (w.writes assessment.toList) := by
  refine Triple.seq (fun _ => Flushing F claim linked w [] [] [MonitoringWrite.note w.claim])
    (triple_emit fun c d h => ?_) fun _ => ?_
  · refine ⟨h.working.extend (fun _ h => h) fun _ h => h, h.known, ⟨c.log, h.written, rfl⟩, ?_, ?_, ?_⟩
    · exact fun a ha => absurd ha List.not_mem_nil
    · exact fun e he => absurd he List.not_mem_nil
    · exact List.nodup_nil
  refine (triple_insertIncidents hF w.session.addedIncidents).bind fun _ => ?_
  refine (triple_emitAll MonitoringWrite.putIncident w.session.changed.reverse).bind fun _ => ?_
  refine (triple_insertAssessment hF assessment).bind fun _ => ?_
  refine Triple.seq (fun _ => Flushing F claim linked w assessment.toList w.session.addedEvidence
    ([MonitoringWrite.note w.claim] ++ w.session.addedIncidents.map .addIncident ++
      w.session.changed.reverse.map .putIncident ++ assessment.toList.map .addAssessment ++
      w.session.addedEvidence.map .addEvidence)) ?_ fun _ => ?_
  · refine (triple_forEach (I := fun done => Flushing F claim linked w assessment.toList done
      ([MonitoringWrite.note w.claim] ++ w.session.addedIncidents.map .addIncident ++
        w.session.changed.reverse.map .putIncident ++ assessment.toList.map .addAssessment ++
        done.map .addEvidence)) (fun done e => triple_insertEvidence hF e) [] w.session.addedEvidence).pre ?_
    intro c d h
    rw [List.map_nil, List.append_nil]
    exact h
  · exact Triple.seq (fun _ => Flushing F claim linked w assessment.toList w.session.addedEvidence _)
      (triple_emit fun c d h => h.push _) fun _ => triple_emit fun c d h => h.push _

/-! ### What a flush commits -/

/-- The findings that a transaction has recorded are those of the runs it assesses. -/
structure Settles (assessments : List MonitoringAssessment) (linked : List ℕ) (d : MonitoringDatabase) :
    Prop where
  distinct : (assessments.map MonitoringAssessment.comparisonRunId).Nodup
  ran : ∀ a ∈ assessments, d.Ran a.comparisonRunId
  recorded : ∀ f ∈ d.findings, f.id ∈ linked ↔ ∃ a ∈ assessments, a.comparisonRunId = f.comparisonRunId
  found : ∀ id ∈ linked, ∃ f ∈ d.findings, f.id = id

theorem settles_nothing : Settles [] [] d where
  distinct := List.nodup_nil
  ran _ ha := absurd ha List.not_mem_nil
  recorded _ _ := ⟨fun h => absurd h List.not_mem_nil, fun ⟨_, ha, _⟩ => absurd ha List.not_mem_nil⟩
  found _ hid := absurd hid List.not_mem_nil

theorem settles_run {run : ComparisonRun} {findings : List Finding} {a : MonitoringAssessment}
    (ha : Assesses run claim a) (hd : d.Consistent) (h : Reports run.runId findings d) :
    Settles [a] ((pageOrder findings).map Finding.id) d := by
  have hmem (f : Finding) : f ∈ pageOrder findings ↔ f ∈ d.findings ∧ f.comparisonRunId = run.runId := by
    unfold pageOrder
    rw [List.mem_insertionSort, ← h.2, reported, List.mem_filter, decide_eq_true_iff]
  refine ⟨List.nodup_singleton _, fun b hb => ?_, fun f hf => ⟨fun hlinked => ?_, ?_⟩, fun id hid => ?_⟩
  · obtain rfl := List.mem_singleton.mp hb
    exact ha.1 ▸ h.1
  · obtain ⟨g, hg, hid⟩ := List.mem_map.mp hlinked
    obtain ⟨hmemg, hrun⟩ := (hmem g).mp hg
    obtain rfl := List.inj_on_of_nodup_map hd.findings hmemg hf hid
    exact ⟨a, List.mem_cons_self, ha.1.trans hrun.symm⟩
  · rintro ⟨b, hb, hrun⟩
    obtain rfl := List.mem_singleton.mp hb
    exact List.mem_map_of_mem ((hmem f).mpr ⟨hf, hrun.symm.trans ha.1⟩)
  · obtain ⟨f, hf, hid⟩ := List.mem_map.mp hid
    exact ⟨f, ((hmem f).mp hf).1, hid⟩

variable {health : ℕ → Option StrategyHealthState}

theorem assessed_flushed {runId : String} : (d.flushed w assessments health).Assessed runId ↔
    d.Assessed runId ∨ ∃ a ∈ assessments, a.comparisonRunId = runId := by
  refine ⟨fun ⟨a, ha, hrun⟩ => ?_, fun h => ?_⟩
  · exact (List.mem_append.mp ha).imp (fun ha => ⟨a, ha, hrun⟩) fun ha => ⟨a, ha, hrun⟩
  · rcases h with ⟨a, ha, hrun⟩ | ⟨a, ha, hrun⟩
    · exact ⟨a, List.mem_append_left _ ha, hrun⟩
    · exact ⟨a, List.mem_append_right _ ha, hrun⟩

theorem evident_flushed {findingId : ℕ} : (d.flushed w assessments health).Evident findingId ↔
    d.Evident findingId ∨ ∃ e ∈ w.session.addedEvidence, e.findingId = some findingId := by
  refine ⟨fun ⟨e, he, hlink⟩ => ?_, fun h => ?_⟩
  · exact (List.mem_append.mp he).imp (fun he => ⟨e, he, hlink⟩) fun he => ⟨e, he, hlink⟩
  · rcases h with ⟨e, he, hlink⟩ | ⟨e, he, hlink⟩
    · exact ⟨e, List.mem_append_left _ he, hlink⟩
    · exact ⟨e, List.mem_append_right _ he, hlink⟩

theorem occurrences_flushed (incidentId : ℕ) : (d.flushed w assessments health).occurrences incidentId =
    d.occurrences incidentId + w.session.addedEvidence.countP fun e => e.incidentId = incidentId :=
  List.countP_append

/-- The session holds no other object for an incident that it adds. -/
theorem Working.object_added (h : Working claim linked w c d) {x : Incident}
    (hx : x ∈ w.session.addedIncidents) : w.session.object x = x := by
  rcases object_cases w.session x with ⟨y, hy, hid, -⟩ | ⟨-, hsame⟩
  · obtain ⟨⟨n, -, hu, hname⟩, -⟩ := h.added x hx
    obtain ⟨-, row, hrow, hrowId⟩ := h.changed y hy
    exact absurd (hrowId.trans (hid.trans hname)) (hu.incidents row hrow)
  · exact hsame

/-- The rows of the incidents behind the flush. -/
theorem Working.mem_flushed (h : Working claim linked w c d) {x : Incident} :
    x ∈ (d.flushed w assessments health).incidents ↔
      (∃ row ∈ d.incidents, w.session.object row = x) ∨ x ∈ w.session.addedIncidents := by
  unfold MonitoringDatabase.flushed
  rw [List.map_append, List.mem_append, List.mem_map]
  refine or_congr_right ⟨fun hx => ?_, fun hx => List.mem_map.mpr ⟨x, hx, h.object_added hx⟩⟩
  obtain ⟨y, hy, rfl⟩ := List.mem_map.mp hx
  exact (h.object_added hy).symm ▸ hy

theorem Working.flushed_ids : (d.flushed w assessments health).incidents.map Incident.id =
    d.incidents.map Incident.id ++ w.session.addedIncidents.map Incident.id := by
  unfold MonitoringDatabase.flushed
  rw [List.map_map, ← List.map_append]
  exact List.map_congr_left fun x _ => object_id w.session x

theorem Working.unoccurred (h : Working claim linked w c d) {x : Incident}
    (hx : x ∈ w.session.addedIncidents) : d.occurrences x.id = 0 := by
  obtain ⟨⟨n, -, hu, hname⟩, -⟩ := h.added x hx
  refine List.countP_eq_zero.mpr fun e he htarget => ?_
  obtain ⟨row, hrow, hid⟩ := h.consistent.targets e he
  exact hu.incidents row hrow (hid.trans ((of_decide_eq_true htarget).trans hname))

theorem Flushing.consistent (h : Flushing F claim linked w assessments w.session.addedEvidence log c d)
    (hs : Settles assessments linked d) : (d.flushed w assessments health).Consistent where
  keyed id row hrow := by
    by_cases hid : id = w.row.binding.id
    · subst hid
      obtain rfl : w.written = row := Option.some.inj ((AList.lookup_insert d.bindings).symm.trans hrow)
      rfl
    · exact h.working.consistent.keyed id row ((AList.lookup_insert_ne hid).symm.trans hrow)
  ids := by
    rw [Working.flushed_ids, List.nodup_append]
    refine ⟨h.working.consistent.ids, h.working.addedIds, fun id hid other hother hsame => ?_⟩
    obtain ⟨row, hrow, rfl⟩ := List.mem_map.mp hid
    obtain ⟨x, hx, rfl⟩ := List.mem_map.mp hother
    obtain ⟨⟨n, -, hu, hname⟩, -⟩ := h.working.added x hx
    exact hu.incidents row hrow (hsame.trans hname)
  findings := h.working.consistent.findings
  reported := h.working.consistent.reported
  assessments := by
    change ((d.assessments ++ assessments).map MonitoringAssessment.comparisonRunId).Nodup
    rw [List.map_append, List.nodup_append]
    refine ⟨h.working.consistent.assessments, hs.distinct, fun runId hrun other hother hsame => ?_⟩
    obtain ⟨a, ha, rfl⟩ := List.mem_map.mp hrun
    obtain ⟨b, hb, rfl⟩ := List.mem_map.mp hother
    exact (h.assessing b hb).2 ⟨a, ha, hsame⟩
  compared runId hrun := by
    rcases assessed_flushed.mp hrun with hrun | ⟨a, ha, rfl⟩
    · exact h.working.consistent.compared runId hrun
    · exact hs.ran a ha
  links := by
    change ((d.evidence ++ w.session.addedEvidence).filterMap IncidentEvidence.findingId).Nodup
    rw [List.filterMap_append, List.nodup_append]
    refine ⟨h.working.consistent.links, h.distinct, fun id hid other hother hsame => ?_⟩
    obtain ⟨e, he, hlink⟩ := List.mem_filterMap.mp hid
    obtain ⟨e', he', hlink'⟩ := List.mem_filterMap.mp hother
    exact (h.linking e' he' other hlink').2 ⟨e, he, hsame ▸ hlink⟩
  evident f hf := by
    refine ⟨fun hevident => assessed_flushed.mpr ?_, fun hassessed => evident_flushed.mpr ?_⟩
    · rcases evident_flushed.mp hevident with hevident | ⟨e, he, hlink⟩
      · exact .inl ((h.working.consistent.evident f hf).mp hevident)
      · exact .inr ((hs.recorded f hf).mp (h.working.links e he f.id hlink))
    · rcases assessed_flushed.mp hassessed with hassessed | hrun
      · exact .inl ((h.working.consistent.evident f hf).mpr hassessed)
      · exact h.working.recorded f.id ((hs.recorded f hf).mpr hrun)
  found id hid := by
    rcases evident_flushed.mp hid with hid | ⟨e, he, hlink⟩
    · exact h.working.consistent.found id hid
    · exact hs.found id (h.working.links e he id hlink)
  targets e he := by
    rcases List.mem_append.mp he with he | he
    · obtain ⟨row, hrow, hid⟩ := h.working.consistent.targets e he
      exact ⟨_, h.working.mem_flushed.mpr (.inl ⟨row, hrow, rfl⟩), (object_id _ row).trans hid⟩
    · rcases h.working.targets e he with ⟨x, hx, hid⟩ | ⟨x, hx, hid⟩
      · obtain ⟨-, row, hrow, hrowId⟩ := h.working.changed x hx
        exact ⟨_, h.working.mem_flushed.mpr (.inl ⟨row, hrow, rfl⟩),
          (object_id _ row).trans (hrowId.trans hid)⟩
      · exact ⟨x, h.working.mem_flushed.mpr (.inr hx), hid⟩
  counted x hx := by
    rw [occurrences_flushed]
    rcases h.working.mem_flushed.mp hx with ⟨row, hrow, rfl⟩ | hx
    · rw [object_id, h.working.counted row hrow, h.working.consistent.counted row hrow]
    · rw [h.working.unoccurred hx, Nat.zero_add]
      exact (h.working.added x hx).2

theorem Working.unused_flushed (h : Working claim linked w c d) {n : ℕ} (hn : n ∉ c.owned)
    (hu : d.Unused n) : (d.flushed w assessments health).Unused n where
  findings := hu.findings
  incidents x hx := by
    rcases h.mem_flushed.mp hx with ⟨row, hrow, rfl⟩ | hx
    · rw [object_id]
      exact hu.incidents row hrow
    · obtain ⟨⟨m, hm, -, hname⟩, -⟩ := h.added x hx
      intro hid
      exact hn ((by omega : m = n) ▸ hm)
  bindings := by
    obtain ⟨row, hrow, -⟩ := h.owns
    have hother : n ≠ w.row.binding.id := by
      rintro rfl
      rw [← h.rowId, hu.bindings] at hrow
      cases hrow
    exact (AList.lookup_insert_ne hother).trans hu.bindings

theorem Flushing.others (h : Flushing F claim linked w assessments w.session.addedEvidence log c d)
    {held : List MonitoringLock} {owned : List ℕ} (hheld : ∀ l ∈ held, l ∉ c.held)
    (howned : ∀ n ∈ owned, n ∉ c.owned) : Others held owned d (d.flushed w assessments health) where
  runs _ hran := ⟨hran, rfl⟩
  findings _ hf := hf
  evidence _ he := List.mem_append_left _ he
  binding id hid row hrow := by
    have hother : id ≠ w.row.binding.id := by
      rintro rfl
      exact hheld _ hid (h.working.rowId ▸ h.working.lock)
    exact (AList.lookup_insert_ne hother).trans hrow
  incident id hid row hrow hrowId := by
    subst hrowId
    rcases object_cases w.session row with ⟨x, hx, hsame, -⟩ | ⟨hunchanged, hobject⟩
    · exact absurd (hsame ▸ (h.working.changed x hx).1) (hheld _ hid)
    · refine ⟨h.working.mem_flushed.mpr (.inl ⟨row, hrow, hobject⟩), ?_⟩
      rw [occurrences_flushed, List.countP_eq_zero.mpr, Nat.add_zero]
      intro e he htarget
      rcases h.working.targets e he with ⟨x, hx, hxid⟩ | ⟨x, hx, hxid⟩
      · exact hunchanged x hx (hxid.trans (of_decide_eq_true htarget))
      · obtain ⟨⟨n, -, hu, hname⟩, -⟩ := h.working.added x hx
        exact hu.incidents row hrow ((of_decide_eq_true htarget).symm.trans (hxid.symm.trans hname))
  finding id hid hevident := by
    rcases evident_flushed.mp hevident with hevident | ⟨e, he, hlink⟩
    · exact hevident
    · exact absurd (h.linking e he id hlink).1 (hheld _ hid)
  assessment runId hid hassessed := by
    rcases assessed_flushed.mp hassessed with hassessed | ⟨a, ha, rfl⟩
    · exact hassessed
    · exact absurd (h.assessing a ha).1 (hheld _ hid)
  run _ _ hran := hran
  names n hn hu := h.working.unused_flushed (howned n hn) hu

theorem Flushing.guar (h : Flushing F claim linked w assessments w.session.addedEvidence log c d)
    (hs : Settles assessments linked d) (hworker : ∀ a ∈ assessments, a.processorWorkerId = claim.workerId) :
    ledger.Guar i c d (d.flushed w assessments health) where
  inv := h.consistent hs
  rely _ _ _ _ hheld howned := h.others hheld howned
  unused _ hn hu := h.working.unused_flushed hn hu
  commit := by
    have hnoted : (d.flushed w assessments health).history = d.history ++ [claim] := by
      rw [← h.working.claimed]
      rfl
    exact .inr ⟨claim, hnoted, h.working.lock, h.working.owns, fun e he => List.mem_append_left _ he,
      fun a ha => List.mem_append_left _ ha,
      fun a ha => (List.mem_append.mp ha).imp_right fun ha => hworker a ha⟩

theorem triple_flush (hF : Fixed F) (assessment : Option MonitoringAssessment)
    (hs : ∀ d, d.Consistent → F d → Settles assessment.toList linked d)
    (hworker : ∀ a ∈ assessment.toList, a.processorWorkerId = claim.workerId) :
    ledger.Triple O i (fun _ _ => True) (Busy F claim linked w) (flush w assessment) fun _ =>
      Committable i := by
  refine (triple_flushing hF assessment).post fun _ c d h d' he => ?_
  have hlater := (Flushing.lockable hF).stable c d d' h he
  obtain ⟨health, hview⟩ := hlater.view
  obtain ⟨health', hwritten⟩ := applyAll_writes w assessment.toList { d' with health := health }
  rw [hview, hwritten]
  exact hlater.guar (hs d' hlater.working.consistent hlater.known) hworker

end Quantive.Monitoring
