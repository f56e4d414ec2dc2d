import Quantive.Monitoring.Incidents

/-!
# Grouping of findings

Within a run the session looks every finding up in the rows that were there before it
(`Recorded`), so each finding whose key has no incident yet adds one of its own. The commit
goes through exactly when no two of those share their key.
-/

namespace Quantive.Monitoring

/-- The key a finding is grouped under. -/
def MonitoringStore.keyOf (d : MonitoringStore) (f : Finding) : DedupKey :=
  incidentDedupKey d.binding f (causeForDivergence f.divergenceType)

/-- The occurrence count of the incident with a key; 0 without one. -/
def MonitoringStore.occurrences (d : MonitoringStore) (key : DedupKey) : ℕ :=
  ((d.incidents.find? fun i => i.dedupKey = key).map Incident.occurrenceCount).getD 0

/-- Every finding of the run is in the one incident of its key, counted once and linked once. -/
structure Grouped (d d' : MonitoringStore) (run : ComparisonRun) : Prop where
  incidents : ∀ f ∈ d.findingsOf run.runId, d'.incidents.countP (·.dedupKey = d.keyOf f) = 1
  occurrences : ∀ key, d'.occurrences key =
    d.occurrences key + (d.findingsOf run.runId).countP (d.keyOf · = key)
  evidence : ∀ f ∈ d.findingsOf run.runId, d'.evidence.countP (·.findingId = some f.id) = 1

/-- What the constraints of the tables and the transactions of the monitor keep. -/
structure MonitoringStore.WellFormed (d : MonitoringStore) : Prop where
  keys : (d.incidents.map Incident.dedupKey).Nodup
  ids : (d.incidents.map Incident.id).Nodup
  drawn : ∀ i ∈ d.incidents, i.id < d.names
  findings : (d.findings.map Finding.id).Nodup
  evidence : (d.evidence.filterMap IncidentEvidence.findingId).Nodup
  evidenceKeys : (d.evidence.map fun e => (e.incidentId, e.evidenceKey)).Nodup
  keyed : ∀ e ∈ d.evidence, ∀ id, e.evidenceKey = .finding id → e.findingId = some id
  assessments : (d.assessments.map MonitoringAssessment.comparisonRunId).Nodup
  /-- A finding is linked in the transaction that assesses its run. -/
  assessed : ∀ e ∈ d.evidence, ∀ f ∈ d.findings, e.findingId = some f.id →
    f.comparisonRunId ∈ d.assessments.map MonitoringAssessment.comparisonRunId

/-! ### The findings of a run -/

theorem MonitoringStore.mem_findingsOf {d : MonitoringStore} {runId : String} {f : Finding} :
    f ∈ d.findingsOf runId ↔ f ∈ d.findings ∧ f.comparisonRunId = runId := by
  simp [MonitoringStore.findingsOf, List.mem_insertionSort]

/-- The ids of the findings are the primary key. -/
theorem MonitoringStore.findingsOf_nodup {d : MonitoringStore}
    (hids : (d.findings.map Finding.id).Nodup) (runId : String) :
    ((d.findingsOf runId).map Finding.id).Nodup := by
  have hperm := (List.perm_insertionSort (fun f g : Finding => f.pageKey ≤ g.pageKey)
    (d.findings.filter fun f => f.comparisonRunId = runId)).map Finding.id
  exact hperm.nodup_iff.mpr (hids.sublist (List.filter_sublist.map _))

/-- The pages visit the findings in strict key order. -/
theorem MonitoringStore.findingsOf_increasing {d : MonitoringStore}
    (hids : (d.findings.map Finding.id).Nodup) (runId : String) :
    (d.findingsOf runId).Pairwise fun f g => f.pageKey < g.pageKey := by
  have hsorted : (d.findingsOf runId).Pairwise fun f g => f.pageKey ≤ g.pageKey :=
    List.pairwise_insertionSort _ _
  have hdistinct := List.pairwise_map.mp (MonitoringStore.findingsOf_nodup hids runId)
  refine (hsorted.and hdistinct).imp fun {f g} h => lt_of_le_of_ne h.1 fun he => h.2 ?_
  exact congrArg Prod.snd (congrArg ofLex he)

theorem MonitoringStore.WellFormed.findingsOf_ids {d : MonitoringStore} (hd : d.WellFormed)
    (runId : String) : ((d.findingsOf runId).map Finding.id).Nodup :=
  MonitoringStore.findingsOf_nodup hd.findings runId

theorem MonitoringStore.WellFormed.findingsOf_sorted {d : MonitoringStore} (hd : d.WellFormed)
    (runId : String) : (d.findingsOf runId).Pairwise fun f g => f.pageKey < g.pageKey :=
  MonitoringStore.findingsOf_increasing hd.findings runId

/-- No finding of a run that is not assessed is linked. -/
theorem MonitoringStore.WellFormed.unlinked {d : MonitoringStore} (hd : d.WellFormed)
    {runId : String} (hrun : runId ∉ d.assessments.map MonitoringAssessment.comparisonRunId)
    {f : Finding} (hf : f ∈ d.findingsOf runId) :
    ∀ e ∈ d.evidence, e.findingId ≠ some f.id := by
  intro e he hlink
  obtain ⟨hmem, rfl⟩ := MonitoringStore.mem_findingsOf.mp hf
  exact hrun (hd.assessed e he f hmem hlink)

/-! ### What the session holds after some findings -/

/-- The rows of `d` are unchanged; only uuids were drawn, the lease was renewed and the health
projected. -/
def MonitoringStore.SameRows (d d' : MonitoringStore) : Prop :=
  ∃ names lease health, d' = { d with
    names := names, binding := { d.binding with leaseExpiresAt := lease }, health := health }

/-- The incident of a finding's key is not among the rows. -/
def MonitoringStore.isNew (d : MonitoringStore) (f : Finding) : Bool :=
  d.keyOf f ∉ d.incidents.map Incident.dedupKey

section
variable {d d' : MonitoringStore}

theorem MonitoringStore.SameRows.incidents (h : d.SameRows d') : d'.incidents = d.incidents := by
  obtain ⟨_, _, _, rfl⟩ := h
  rfl

theorem MonitoringStore.SameRows.evidence (h : d.SameRows d') : d'.evidence = d.evidence := by
  obtain ⟨_, _, _, rfl⟩ := h
  rfl

theorem MonitoringStore.SameRows.keyOf (h : d.SameRows d') (f : Finding) : d'.keyOf f = d.keyOf f := by
  obtain ⟨_, _, _, rfl⟩ := h
  rfl

theorem MonitoringStore.SameRows.assessments (h : d.SameRows d') : d'.assessments = d.assessments := by
  obtain ⟨_, _, _, rfl⟩ := h
  rfl

theorem MonitoringStore.SameRows.leased (h : d.SameRows d') (expiry : ℤ) :
    d.SameRows { d' with binding := { d'.binding with leaseExpiresAt := expiry } } := by
  obtain ⟨names, _, health, rfl⟩ := h
  exact ⟨names, expiry, health, rfl⟩

theorem MonitoringStore.SameRows.drawn (h : d.SameRows d') (names : ℕ) :
    d.SameRows { d' with names := names } := by
  obtain ⟨_, lease, health, rfl⟩ := h
  exact ⟨names, lease, health, rfl⟩

theorem MonitoringStore.SameRows.projected (h : d.SameRows d') (health : HealthState) :
    d.SameRows { d' with health := health } := by
  obtain ⟨names, lease, _, rfl⟩ := h
  exact ⟨names, lease, health, rfl⟩

theorem MonitoringStore.SameRows.findings (h : d.SameRows d') : d'.findings = d.findings := by
  obtain ⟨_, _, _, rfl⟩ := h
  rfl

end

/-- The incidents of the session after some findings: held objects count on, and a finding whose
key has no row adds an incident. -/
structure Counted (d : MonitoringStore) (done : List Finding) (s : UnitOfWork) : Prop where
  rows : d.SameRows s.db
  names : d.names ≤ s.db.names
  held : ∀ row ∈ d.incidents, (s.object row).id = row.id ∧
    (s.object row).dedupKey = row.dedupKey ∧ (s.object row).occurrenceCount =
      row.occurrenceCount + done.countP (d.keyOf · = row.dedupKey)
  addedKeys : s.addedIncidents.map Incident.dedupKey = (done.filter d.isNew).map d.keyOf
  addedOnce : ∀ i ∈ s.addedIncidents, i.occurrenceCount = 1
  addedIds : (s.addedIncidents.map Incident.id).Nodup
  addedNames : ∀ i ∈ s.addedIncidents, d.names ≤ i.id ∧ i.id < s.db.names

/-- The evidence of the session after some findings. -/
structure Linked (done : List Finding) (s : UnitOfWork) : Prop where
  findings : s.addedEvidence.map IncidentEvidence.findingId = done.map fun f => some f.id
  keys : ∀ e ∈ s.addedEvidence, ∃ f ∈ done, e.findingId = some f.id ∧ e.evidenceKey = .finding f.id

section
variable {d : MonitoringStore} {done : List Finding} {s : UnitOfWork} {f : Finding}

theorem Counted.start : Counted d [] { db := d } where
  rows := ⟨_, _, _, rfl⟩
  names := Nat.le_refl _
  held := fun row _ => ⟨rfl, rfl, rfl⟩
  addedKeys := rfl
  addedOnce := by simp
  addedIds := by simp
  addedNames := by simp

theorem Linked.start : Linked [] { db := d } := ⟨rfl, by simp⟩

/-- The object of a row after another object was changed. -/
theorem object_change (s : UnitOfWork) (incident row : Incident) :
    (s.change incident).object row = if incident.id = row.id then incident else s.object row := by
  unfold UnitOfWork.object UnitOfWork.change
  by_cases h : incident.id = row.id
  · simp [h]
  · simp [h]

/-- A row of the key: its object counts one more. -/
theorem Counted.recur (hd : d.WellFormed) (h : Counted d done s) {row incident : Incident}
    (hrow : row ∈ d.incidents) (hkey : row.dedupKey = d.keyOf f)
    (hid : incident.id = row.id) (hkept : incident.dedupKey = row.dedupKey)
    (hcount : incident.occurrenceCount = (s.object row).occurrenceCount + 1) :
    Counted d (done ++ [f]) (s.change incident) := by
  have hknown : d.isNew f = false := by
    simpa [MonitoringStore.isNew, hkey] using ⟨row, hrow, hkey⟩
  refine ⟨h.rows, h.names, fun row' hrow' => ?_, ?_, h.addedOnce, h.addedIds, h.addedNames⟩
  · obtain ⟨hid', hkey', hcount'⟩ := h.held row' hrow'
    rw [object_change]
    by_cases he : row.id = row'.id
    · have hsame : row = row' := List.inj_on_of_nodup_map hd.ids hrow hrow' he
      subst hsame
      rw [if_pos hid]
      refine ⟨hid, hkept, ?_⟩
      rw [hcount, hcount', List.countP_append]
      simp [hkey]
      omega
    · rw [if_neg (fun hc => he (hid.symm.trans hc))]
      refine ⟨hid', hkey', ?_⟩
      have hother : d.keyOf f ≠ row'.dedupKey := by
        intro hc
        have hsame : row = row' := List.inj_on_of_nodup_map hd.keys hrow hrow' (hkey.trans hc)
        exact he (congrArg Incident.id hsame)
      rw [hcount', List.countP_append]
      simp [hother]
  · rw [List.filter_append, List.filter_singleton, hknown]
    simpa [UnitOfWork.change] using h.addedKeys

/-- No row of the key: an incident is added. -/
theorem Counted.open (h : Counted d done s) {incident : Incident} (hnew : d.isNew f)
    (hid : incident.id = s.db.names) (hkey : incident.dedupKey = d.keyOf f)
    (hcount : incident.occurrenceCount = 1) :
    Counted d (done ++ [f]) (s.drawn.addIncident incident) := by
  refine ⟨h.rows.drawn _, Nat.le_succ_of_le h.names, fun row hrow => ?_, ?_, ?_, ?_, ?_⟩
  · obtain ⟨hid', hkey', hcount'⟩ := h.held row hrow
    refine ⟨hid', hkey', hcount'.trans ?_⟩
    have hother : d.keyOf f ≠ row.dedupKey := by
      intro hc
      simp only [MonitoringStore.isNew, List.mem_map, not_exists, not_and, decide_eq_true_eq] at hnew
      exact hnew row hrow hc.symm
    rw [List.countP_append]
    simp [hother]
  · rw [List.filter_append, List.filter_singleton, hnew]
    simp [UnitOfWork.addIncident, UnitOfWork.drawn, h.addedKeys, hkey]
  · intro i hi
    rcases List.mem_append.mp hi with hi | hi
    · exact h.addedOnce i hi
    · rw [List.mem_singleton.mp hi]
      exact hcount
  · have hfresh : ∀ i ∈ s.addedIncidents, i.id ≠ s.db.names := fun i hi =>
      Nat.ne_of_lt (h.addedNames i hi).2
    simpa [UnitOfWork.addIncident, UnitOfWork.drawn, List.nodup_append, h.addedIds, hid] using hfresh
  · intro i hi
    rcases List.mem_append.mp hi with hi | hi
    · obtain ⟨hlow, hhigh⟩ := h.addedNames i hi
      exact ⟨hlow, Nat.lt_succ_of_lt hhigh⟩
    · rw [List.mem_singleton.mp hi, hid]
      exact ⟨h.names, Nat.lt_succ_self _⟩

theorem Counted.addEvidence (h : Counted d done s) (e : IncidentEvidence) :
    Counted d done (s.drawn.addEvidence e) := by
  refine ⟨h.rows.drawn _, Nat.le_succ_of_le h.names, h.held, h.addedKeys, h.addedOnce, h.addedIds,
    fun i hi => ?_⟩
  obtain ⟨hlow, hhigh⟩ := h.addedNames i hi
  exact ⟨hlow, Nat.lt_succ_of_lt hhigh⟩

theorem Linked.of_added {s' : UnitOfWork} (h : Linked done s)
    (he : s'.addedEvidence = s.addedEvidence) : Linked done s' :=
  ⟨he ▸ h.findings, he ▸ h.keys⟩

theorem Linked.addEvidence (h : Linked done s) {e : IncidentEvidence}
    (hlink : e.findingId = some f.id) (hkey : e.evidenceKey = .finding f.id) :
    Linked (done ++ [f]) (s.drawn.addEvidence e) := by
  refine ⟨?_, fun e' he' => ?_⟩
  · simp [UnitOfWork.addEvidence, UnitOfWork.drawn, h.findings, hlink]
  · rcases List.mem_append.mp he' with he' | he'
    · obtain ⟨g, hg, hg'⟩ := h.keys e' he'
      exact ⟨g, List.mem_append_left _ hg, hg'⟩
    · rw [List.mem_singleton.mp he']
      exact ⟨f, by simp, hlink, hkey⟩

theorem recurIncident_fields (binding : MonitoringBinding) (run : ComparisonRun) (f : Finding)
    (cause : HealthCause) (incident : Incident) (now : ℤ) :
    (recurIncident binding run f cause incident now).id = incident.id ∧
    (recurIncident binding run f cause incident now).dedupKey = incident.dedupKey ∧
    (recurIncident binding run f cause incident now).occurrenceCount =
      incident.occurrenceCount + 1 := by
  unfold recurIncident
  by_cases h : incident.status = .resolved <;> simp [h]

/-- `_record_finding` of a finding that is not linked yet. -/
theorem recordFinding_step (hd : d.WellFormed) (hc : Counted d done s) (hl : Linked done s)
    (hunlinked : ∀ e ∈ d.evidence, e.findingId ≠ some f.id) (run : ComparisonRun) (now : ℤ) :
    ∃ c s', recordFinding run now s f = .ok (c, s') ∧
      Counted d (done ++ [f]) s' ∧ Linked (done ++ [f]) s' := by
  have hevidence : (s.selectEvidence fun e => e.findingId = some f.id) = [] :=
    List.filter_eq_nil_iff.mpr fun e he => by
      simpa using hunlinked e (hc.rows.evidence ▸ he)
  have hkey : incidentDedupKey s.db.binding f (causeForDivergence f.divergenceType) = d.keyOf f :=
    hc.rows.keyOf f
  unfold recordFinding
  simp only [hevidence, List.head?_nil, hkey]
  cases hfound : (s.selectIncidents fun i => i.dedupKey = d.keyOf f).head? with
  | none =>
    have hnew : d.isNew f := by
      have hnil := List.map_eq_nil_iff.mp (List.head?_eq_none_iff.mp hfound)
      simpa [MonitoringStore.isNew, hc.rows.incidents] using hnil
    refine ⟨_, _, rfl, (hc.open hnew rfl hkey rfl).addEvidence _, ?_⟩
    exact Linked.addEvidence (s := s.drawn.addIncident _) (hl.of_added rfl) rfl rfl
  | some old =>
    obtain ⟨row, hrow, rfl⟩ := List.mem_map.mp (List.mem_of_mem_head? hfound)
    obtain ⟨hmem, hrowKey⟩ := List.mem_filter.mp hrow
    rw [hc.rows.incidents] at hmem
    obtain ⟨hid, hdedup, -⟩ := hc.held row hmem
    obtain ⟨hid', hdedup', hcount'⟩ := recurIncident_fields s.db.binding run f
      (causeForDivergence f.divergenceType) (s.object row) now
    refine ⟨_, _, rfl, (hc.recur hd hmem (by simpa using hrowKey) (hid'.trans hid)
      (hdedup'.trans hdedup) hcount').addEvidence _, ?_⟩
    exact Linked.addEvidence (s := s.change _) (hl.of_added rfl) rfl rfl

end

/-! ### The pages -/

structure Scanned (d : MonitoringStore) (done : List Finding) (s : Scan) : Prop where
  counted : Counted d done s.session
  linked : Linked done s.session
  count : s.findingCount = done.length
  projected : s.projection = none ↔ done = []

section
variable {d : MonitoringStore} {done : List Finding} {s : Scan} {f : Finding}
  (run : ComparisonRun) (now : ℤ)

theorem scanFinding_step (hd : d.WellFormed) (h : Scanned d done s)
    (hunlinked : ∀ e ∈ d.evidence, e.findingId ≠ some f.id) :
    ∃ s', scanFinding run now s f = .ok s' ∧ Scanned d (done ++ [f]) s' := by
  obtain ⟨c, session, hrecord, hcounted, hlinked⟩ :=
    recordFinding_step hd h.counted h.linked hunlinked run now
  refine ⟨_, by rw [scanFinding, hrecord]; rfl, hcounted, hlinked, ?_, ?_⟩
  · simp [h.count]
  · simp

theorem scanFindings (hd : d.WellFormed) (h : Scanned d done s) (page : List Finding)
    (hunlinked : ∀ f ∈ page, ∀ e ∈ d.evidence, e.findingId ≠ some f.id) :
    ∃ s', page.foldlM (scanFinding run now) s = .ok s' ∧ Scanned d (done ++ page) s' := by
  induction page generalizing done s with
  | nil => exact ⟨s, rfl, by rwa [List.append_nil]⟩
  | cons f page ih =>
    obtain ⟨s₁, hs₁, h₁⟩ := scanFinding_step run now hd h
      (hunlinked f List.mem_cons_self)
    obtain ⟨s₂, hs₂, h₂⟩ := ih h₁ fun g hg => hunlinked g (List.mem_cons_of_mem _ hg)
    refine ⟨s₂, ?_, by simpa using h₂⟩
    rw [List.foldlM_cons, hs₁]
    exact hs₂

theorem scanPage_step (settings : MonitoringSettings) (hd : d.WellFormed) (h : Scanned d done s)
    (page : List Finding) (hunlinked : ∀ f ∈ page, ∀ e ∈ d.evidence, e.findingId ≠ some f.id) :
    ∃ s', scanPage settings run now s page = .ok s' ∧ Scanned d (done ++ page) s' := by
  obtain ⟨s₁, hs₁, h₁⟩ := scanFindings run now hd h page hunlinked
  let expiry := settings.clock (s₁.renewals + 1) + settings.bindingLeaseSeconds * second
  refine ⟨{ s₁ with session := s₁.session.renewLease expiry, renewals := s₁.renewals + 1 },
    by rw [scanPage, hs₁]; rfl, ?_, ?_, h₁.count, h₁.projected⟩
  · have hc := h₁.counted
    exact ⟨hc.rows.leased _, hc.names, hc.held, hc.addedKeys, hc.addedOnce, hc.addedIds, hc.addedNames⟩
  · exact h₁.linked.of_added rfl

/-- The page loop records every finding of the run, for any page size. -/
theorem scan_run (settings : MonitoringSettings) (hd : d.WellFormed)
    (hrun : run.runId ∉ d.assessments.map MonitoringAssessment.comparisonRunId) :
    ∃ scan, forPages Finding.pageKey (scanPage settings run now) (d.findingsOf run.runId)
      settings.findingPageSize ((d.findingsOf run.runId).length + 1) none { session := { db := d } } =
        some (.ok scan) ∧ Scanned d (d.findingsOf run.runId) scan := by
  refine forPages_rule (I := Scanned d) (hd.findingsOf_sorted run.runId) settings.positive ?_
    (List.nil_append _).symm rfl ⟨Counted.start, Linked.start, rfl, by simp⟩ (Nat.lt_succ_self _)
  intro done page rest s hrows h
  refine scanPage_step run now settings hd h page fun f hf => hd.unlinked hrun (f := f) ?_
  rw [hrows]
  simp [hf]

theorem scanFinding_count {scan scan' : Scan} (h : scanFinding run now scan f = .ok scan') :
    scan'.findingCount = scan.findingCount + 1 := by
  unfold scanFinding at h
  cases hrecord : recordFinding run now scan.session f with
  | error e =>
    rw [hrecord] at h
    cases h
  | ok r =>
    rw [hrecord] at h
    cases h
    rfl

theorem scanPage_count {settings : MonitoringSettings} {page : List Finding} {scan scan' : Scan}
    (h : scanPage settings run now scan page = .ok scan') :
    scan'.findingCount = scan.findingCount + page.length := by
  unfold scanPage at h
  cases hpage : page.foldlM (scanFinding run now) scan with
  | error e =>
    rw [hpage] at h
    cases h
  | ok scan₁ =>
    rw [hpage] at h
    cases h
    have hone : ∀ s f s', scanFinding run now s f = .ok s' →
        s'.findingCount = s.findingCount + 1 := fun s f s' hs => scanFinding_count run now hs
    have hcount := foldlM_weight hone hpage
    rw [List.map_const', List.sum_replicate_nat, Nat.mul_one] at hcount
    exact hcount

/-- The pages hold every finding of the run once, in whatever order they were created, and the loop
ends after them: whatever it starts from, it records the findings page by page, and counts them. -/
theorem finding_pages_exact {d : MonitoringStore} (hids : (d.findings.map Finding.id).Nodup)
    (settings : MonitoringSettings) (run : ComparisonRun) (now : ℤ) :
    ∃ pages : List (List Finding),
      pages.flatten.Perm (d.findings.filter fun f => f.comparisonRunId = run.runId) ∧
      pages.flatten.Nodup ∧ (∀ page ∈ pages, page.length ≤ settings.findingPageSize) ∧
      ∀ scan, forPages Finding.pageKey (scanPage settings run now) (d.findingsOf run.runId)
          settings.findingPageSize ((d.findingsOf run.runId).length + 1) none scan =
            some (pages.foldlM (scanPage settings run now) scan) ∧
        ∀ scan', pages.foldlM (scanPage settings run now) scan = .ok scan' →
          scan'.findingCount = scan.findingCount + pages.flatten.length := by
  have hstart : afterCursor Finding.pageKey (d.findingsOf run.runId) none = d.findingsOf run.runId :=
    rfl
  obtain ⟨pages, hflat, hsizes, hpages⟩ := forPages_pages
    (MonitoringStore.findingsOf_increasing hids run.runId) settings.positive
    (List.nil_append _).symm hstart (Nat.lt_succ_self _)
  refine ⟨pages, ?_, ?_, hsizes, fun scan => ⟨hpages _ scan, fun scan' hok => ?_⟩⟩
  · rw [hflat]
    exact List.perm_insertionSort _ _
  · rw [hflat]
    exact (MonitoringStore.findingsOf_nodup hids run.runId).of_map
  · rw [List.length_flatten]
    have hpage : ∀ s page s', scanPage settings run now s page = .ok s' →
        s'.findingCount = s.findingCount + page.length := fun s page s' hs =>
      scanPage_count run now hs
    exact foldlM_weight hpage hok

end

/-! ### The health projection -/

/-- The findings fit the status of the run. -/
def ComparisonRun.Fits (run : ComparisonRun) (findings : List Finding) : Prop :=
  (run.status = .healthy → findings = []) ∧ (run.status = .divergent → findings ≠ [])

section
variable {d : MonitoringStore} {done : List Finding} {s : UnitOfWork}

/-- Another state of an object with the same count. -/
theorem Counted.replace (hd : d.WellFormed) (h : Counted d done s) {row incident : Incident}
    (hrow : row ∈ d.incidents) (hid : incident.id = row.id) (hkey : incident.dedupKey = row.dedupKey)
    (hcount : incident.occurrenceCount =
      row.occurrenceCount + done.countP (d.keyOf · = row.dedupKey)) :
    Counted d done (s.change incident) := by
  refine ⟨h.rows, h.names, fun row' hrow' => ?_, h.addedKeys, h.addedOnce, h.addedIds, h.addedNames⟩
  rw [object_change]
  by_cases he : incident.id = row'.id
  · have hsame : row = row' := List.inj_on_of_nodup_map hd.ids hrow hrow' (hid.symm.trans he)
    subst hsame
    rw [if_pos he]
    exact ⟨hid, hkey, hcount⟩
  · rw [if_neg he]
    exact h.held row' hrow'

theorem Counted.foldl_change (hd : d.WellFormed) (g : Incident → Incident)
    (hg : ∀ i, (g i).id = i.id ∧ (g i).dedupKey = i.dedupKey ∧
      (g i).occurrenceCount = i.occurrenceCount) (h : Counted d done s) (incidents : List Incident)
    (hheld : ∀ i ∈ incidents, ∃ row ∈ d.incidents, i.id = row.id ∧ i.dedupKey = row.dedupKey ∧
      i.occurrenceCount = row.occurrenceCount + done.countP (d.keyOf · = row.dedupKey)) :
    Counted d done (incidents.foldl (fun s i => s.change (g i)) s) := by
  induction incidents generalizing s with
  | nil => exact h
  | cons i incidents ih =>
    obtain ⟨row, hrow, hid, hkey, hcount⟩ := hheld i List.mem_cons_self
    obtain ⟨gid, gkey, gcount⟩ := hg i
    refine ih (h.replace hd hrow (gid.trans hid) (gkey.trans hkey) (gcount.trans hcount)) ?_
    exact fun j hj => hheld j (List.mem_cons_of_mem _ hj)

theorem foldl_change_added (g : Incident → Incident) (incidents : List Incident) (s : UnitOfWork) :
    (incidents.foldl (fun s i => s.change (g i)) s).addedEvidence = s.addedEvidence := by
  induction incidents generalizing s with
  | nil => rfl
  | cons i incidents ih => exact ih _

/-- Recovery changes the status of incidents only. -/
theorem recordHealthyComparison_kept (hd : d.WellFormed) (hc : Counted d done s) (hl : Linked done s)
    (h : HealthState) (now : ℤ) : Counted d done (recordHealthyComparison s h now).1 ∧
      Linked done (recordHealthyComparison s h now).1 := by
  have hheld : ∀ i ∈ s.unresolvedIncidents, ∃ row ∈ d.incidents, i.id = row.id ∧
      i.dedupKey = row.dedupKey ∧
      i.occurrenceCount = row.occurrenceCount + done.countP (d.keyOf · = row.dedupKey) := by
    intro i hi
    obtain ⟨row, hrow, rfl⟩ := List.mem_map.mp hi
    have hmem : row ∈ d.incidents := hc.rows.incidents ▸ (List.mem_filter.mp hrow).1
    exact ⟨row, hmem, hc.held row hmem⟩
  unfold recordHealthyComparison
  by_cases hchecks : h.consecutiveHealthyChecks + 1 < s.db.binding.policy.recoveryHealthyChecks
  · simp only [hchecks, if_true]
    cases s.unresolvedIncidents <;> exact ⟨hc, hl⟩
  · simp only [hchecks, if_false]
    refine ⟨hc.foldl_change hd (resolveIncident _ now) (fun i => ⟨rfl, rfl, rfl⟩) _ hheld, ?_⟩
    exact hl.of_added (foldl_change_added _ _ _)

theorem projectHealth_of_fits {run : ComparisonRun} {scan : Scan} (hd : d.WellFormed)
    (h : Scanned d done scan) (hfits : run.Fits done) (now : ℤ) :
    ∃ session health, projectHealth run now scan = .ok (session, health) ∧
      Counted d done session ∧ Linked done session := by
  unfold projectHealth
  cases hstatus : run.status with
  | healthy =>
    have hnone : scan.findingCount = 0 := by rw [h.count, hfits.1 hstatus]; rfl
    simp only [hnone, ne_eq, not_true_eq_false, if_false]
    cases currentWindow { scan.session.db.health with lastComparisonAt := some now } run with
    | false => exact ⟨_, _, rfl, h.counted, h.linked⟩
    | true => exact ⟨_, _, rfl, recordHealthyComparison_kept hd h.counted h.linked _ now⟩
  | insufficientReference =>
    dsimp only
    cases currentWindow { scan.session.db.health with lastComparisonAt := some now } run with
    | false => exact ⟨_, _, rfl, h.counted, h.linked⟩
    | true => exact ⟨_, _, rfl, h.counted, h.linked⟩
  | divergent =>
    cases hp : scan.projection with
    | none => exact absurd (h.projected.mp hp) (hfits.2 hstatus)
    | some p =>
      dsimp only
      cases currentWindow { scan.session.db.health with lastComparisonAt := some now } run with
      | false => exact ⟨_, _, rfl, h.counted, h.linked⟩
      | true => exact ⟨_, _, rfl, h.counted, h.linked⟩

theorem projectHealth_of_not_fits {run : ComparisonRun} {scan : Scan}
    (h : Scanned d done scan) (hfits : ¬ run.Fits done) (now : ℤ) :
    ∃ e, projectHealth run now scan = .error e := by
  unfold projectHealth
  cases hstatus : run.status with
  | healthy =>
    have hsome : scan.findingCount ≠ 0 := by
      intro hzero
      refine hfits ⟨fun _ => List.eq_nil_of_length_eq_zero (h.count ▸ hzero), fun hdiv => ?_⟩
      rw [hstatus] at hdiv
      cases hdiv
    exact ⟨_, by simp only [ne_eq, hsome, not_false_eq_true, if_true]; rfl⟩
  | insufficientReference =>
    exact absurd ⟨fun hh => by simp [hstatus] at hh, fun hh => by simp [hstatus] at hh⟩ hfits
  | divergent =>
    have hempty : done = [] := by
      by_contra hne
      exact hfits ⟨fun hh => by simp [hstatus] at hh, fun _ => hne⟩
    exact ⟨_, by rw [h.projected.mpr hempty]⟩

end

/-! ### The commit -/

/-- The findings whose keys have no incident yet have different keys. -/
def MonitoringStore.NewKeysDiffer (d : MonitoringStore) (findings : List Finding) : Prop :=
  ∀ key, 2 ≤ findings.countP (d.keyOf · = key) → ∃ i ∈ d.incidents, i.dedupKey = key

section
variable {d : MonitoringStore} {findings : List Finding} {s : UnitOfWork}

theorem newKeysDiffer_iff : d.NewKeysDiffer findings ↔
    ((findings.filter d.isNew).map d.keyOf).Nodup := by
  have hcount : ∀ key, ((findings.filter d.isNew).map d.keyOf).count key =
      if key ∈ d.incidents.map Incident.dedupKey then 0 else findings.countP (d.keyOf · = key) := by
    intro key
    rw [List.count_eq_countP, List.countP_map, List.countP_filter]
    by_cases hk : key ∈ d.incidents.map Incident.dedupKey
    · rw [if_pos hk]
      refine List.countP_eq_zero.mpr fun f _ hf => ?_
      simp only [Function.comp_apply, beq_iff_eq, MonitoringStore.isNew, decide_eq_true_eq,
        Bool.and_eq_true] at hf
      exact hf.2 (hf.1 ▸ hk)
    · rw [if_neg hk]
      refine List.countP_congr fun f _ => ?_
      simp only [Function.comp_apply, beq_iff_eq, MonitoringStore.isNew, decide_eq_true_eq,
        Bool.and_eq_true, and_iff_left_iff_imp]
      exact fun he => he ▸ hk
  rw [List.nodup_iff_count_le_one]
  constructor
  · intro h key
    rw [hcount]
    split
    · exact Nat.zero_le _
    · rename_i hk
      by_contra hlt
      obtain ⟨i, hi, rfl⟩ := h key (by omega)
      exact hk (List.mem_map_of_mem hi)
  · intro h key htwo
    have hle := h key
    rw [hcount] at hle
    by_cases hk : key ∈ d.incidents.map Incident.dedupKey
    · exact List.mem_map.mp hk
    · rw [if_neg hk] at hle
      omega

theorem Counted.commit_keys (h : Counted d findings s) :
    (s.db.incidents.map s.object ++ s.addedIncidents).map Incident.dedupKey =
      d.incidents.map Incident.dedupKey ++ (findings.filter d.isNew).map d.keyOf := by
  rw [List.map_append, h.addedKeys, h.rows.incidents, List.map_map]
  congr 1
  exact List.map_congr_left fun row hrow => (h.held row hrow).2.1

theorem commit_keys_nodup (hd : d.WellFormed) (h : Counted d findings s) :
    ((s.db.incidents.map s.object ++ s.addedIncidents).map Incident.dedupKey).Nodup ↔
      d.NewKeysDiffer findings := by
  rw [h.commit_keys, newKeysDiffer_iff, List.nodup_append]
  constructor
  · exact fun hn => hn.2.1
  · refine fun hn => ⟨hd.keys, hn, fun key hkey other hother he => ?_⟩
    obtain ⟨f, hf, rfl⟩ := List.mem_map.mp hother
    have hnew := (List.mem_filter.mp hf).2
    simp only [MonitoringStore.isNew, decide_eq_true_eq] at hnew
    exact hnew (he ▸ hkey)

/-- Two findings that share a new key: the flush violates the unique constraint. -/
theorem commit_of_shared (hd : d.WellFormed) (h : Counted d findings s)
    (hshared : ¬ d.NewKeysDiffer findings) (assessment : MonitoringAssessment) :
    s.commit assessment = .error (.integrity "uq_strategy_incidents_dedup_key") := by
  unfold UnitOfWork.commit
  rw [if_pos (fun hn => hshared ((commit_keys_nodup hd h).mp hn))]

/-- The rows of the database after a commit that went through. -/
structure Committed (d : MonitoringStore) (s : UnitOfWork) (assessment : MonitoringAssessment)
    (d' : MonitoringStore) : Prop where
  incidents : d'.incidents = d.incidents.map s.object ++ s.addedIncidents
  evidence : d'.evidence = d.evidence ++ s.addedEvidence
  assessments : d'.assessments = d.assessments ++ [assessment]
  names : d'.names = s.db.names
  findings : d'.findings = d.findings
  key : ∀ f, d'.keyOf f = d.keyOf f

theorem Linked.added_nodup (h : Linked findings s) (hids : (findings.map Finding.id).Nodup) :
    (s.addedEvidence.map fun e => (e.incidentId, e.evidenceKey)).Nodup := by
  have hfindings : (s.addedEvidence.map IncidentEvidence.findingId).Nodup := by
    rw [h.findings]
    have := hids.map (Option.some_injective ℕ)
    rwa [List.map_map] at this
  refine (List.nodup_map_iff_inj_on hfindings.of_map).mpr fun e he e' he' heq => ?_
  obtain ⟨f, -, hf, hkey⟩ := h.keys e he
  obtain ⟨f', -, hf', hkey'⟩ := h.keys e' he'
  have hsame : f.id = f'.id := by
    have := congrArg Prod.snd heq
    simp only [hkey, hkey', EvidenceKey.finding.injEq] at this
    exact this
  exact List.inj_on_of_nodup_map hfindings he he' (by rw [hf, hf', hsame])

theorem Linked.filterMap (h : Linked findings s) :
    s.addedEvidence.filterMap IncidentEvidence.findingId = findings.map Finding.id := by
  have hid : s.addedEvidence.filterMap IncidentEvidence.findingId =
      (s.addedEvidence.map IncidentEvidence.findingId).filterMap id := by
    rw [List.filterMap_map]
    rfl
  rw [hid, h.findings, List.filterMap_map]
  simp [List.filterMap_eq_map']

theorem Linked.commit_keys (hd : d.WellFormed) (hl : Linked findings s)
    (hids : (findings.map Finding.id).Nodup)
    (hunlinked : ∀ f ∈ findings, ∀ e ∈ d.evidence, e.findingId ≠ some f.id) :
    ((d.evidence ++ s.addedEvidence).map fun e => (e.incidentId, e.evidenceKey)).Nodup := by
  rw [List.map_append, List.nodup_append]
  refine ⟨hd.evidenceKeys, hl.added_nodup hids, fun x hx y hy he => ?_⟩
  obtain ⟨e, hmem, rfl⟩ := List.mem_map.mp hx
  obtain ⟨e', hmem', rfl⟩ := List.mem_map.mp hy
  obtain ⟨f, hf, -, hkey⟩ := hl.keys e' hmem'
  have hsnd : e.evidenceKey = .finding f.id := (congrArg Prod.snd he).trans hkey
  exact hunlinked f hf e hmem (hd.keyed e hmem f.id hsnd)

theorem Linked.commit_links (hd : d.WellFormed) (hl : Linked findings s)
    (hids : (findings.map Finding.id).Nodup)
    (hunlinked : ∀ f ∈ findings, ∀ e ∈ d.evidence, e.findingId ≠ some f.id) :
    ((d.evidence ++ s.addedEvidence).filterMap IncidentEvidence.findingId).Nodup := by
  rw [List.filterMap_append, hl.filterMap, List.nodup_append]
  refine ⟨hd.evidence, hids, fun id hid id' hid' he => ?_⟩
  obtain ⟨e, hmem, hlink⟩ := List.mem_filterMap.mp hid
  obtain ⟨f, hf, rfl⟩ := List.mem_map.mp hid'
  exact hunlinked f hf e hmem (he ▸ hlink)

theorem commit_assessments (hd : d.WellFormed) {assessment : MonitoringAssessment}
    (hassessed : assessment.comparisonRunId ∉
      d.assessments.map MonitoringAssessment.comparisonRunId) :
    ((d.assessments ++ [assessment]).map MonitoringAssessment.comparisonRunId).Nodup := by
  rw [List.map_append, List.nodup_append]
  refine ⟨hd.assessments, by simp, fun id hid id' hid' he => hassessed ?_⟩
  rw [List.map_singleton, List.mem_singleton] at hid'
  exact hid' ▸ he ▸ hid

/-- Otherwise every constraint holds. -/
theorem commit_ok (hd : d.WellFormed) (h : Counted d findings s) (hl : Linked findings s)
    (hids : (findings.map Finding.id).Nodup) (hdiffer : d.NewKeysDiffer findings)
    (hunlinked : ∀ f ∈ findings, ∀ e ∈ d.evidence, e.findingId ≠ some f.id)
    (assessment : MonitoringAssessment)
    (hassessed : assessment.comparisonRunId ∉
      d.assessments.map MonitoringAssessment.comparisonRunId) :
    ∃ d', s.commit assessment = .ok d' ∧ Committed d s assessment d' := by
  unfold UnitOfWork.commit
  rw [if_neg (not_not_intro ((commit_keys_nodup hd h).mpr hdiffer)), h.rows.evidence,
    h.rows.assessments, if_neg (not_not_intro (hl.commit_keys hd hids hunlinked)),
    if_neg (not_not_intro (hl.commit_links hd hids hunlinked)),
    if_neg (not_not_intro (commit_assessments hd hassessed))]
  exact ⟨_, rfl, by rw [h.rows.incidents], rfl, rfl, rfl, h.rows.findings, h.rows.keyOf⟩

/-! ### What a committed run leaves behind -/

theorem occurrences_of_mem {d : MonitoringStore} (hkeys : (d.incidents.map Incident.dedupKey).Nodup)
    {i : Incident} (hi : i ∈ d.incidents) : d.occurrences i.dedupKey = i.occurrenceCount := by
  unfold MonitoringStore.occurrences
  cases hfind : d.incidents.find? fun j => j.dedupKey = i.dedupKey with
  | none => simpa using List.find?_eq_none.mp hfind i hi
  | some j =>
    have hj := List.find?_some hfind
    have hsame : j = i :=
      List.inj_on_of_nodup_map hkeys (List.mem_of_find?_eq_some hfind) hi (by simpa using hj)
    rw [hsame]
    rfl

theorem occurrences_of_not_mem {d : MonitoringStore} {key : DedupKey}
    (hkey : key ∉ d.incidents.map Incident.dedupKey) : d.occurrences key = 0 := by
  have hfind : d.incidents.find? (fun i => i.dedupKey = key) = none :=
    List.find?_eq_none.mpr fun i hi he =>
      hkey (of_decide_eq_true he ▸ List.mem_map_of_mem hi)
  simp [MonitoringStore.occurrences, hfind]

theorem Committed.keys {d' : MonitoringStore} {assessment : MonitoringAssessment}
    (h : Counted d findings s) (hc : Committed d s assessment d') :
    d'.incidents.map Incident.dedupKey =
      d.incidents.map Incident.dedupKey ++ (findings.filter d.isNew).map d.keyOf := by
  rw [hc.incidents, ← h.commit_keys, h.rows.incidents]

theorem Committed.occurrences {d' : MonitoringStore} {assessment : MonitoringAssessment}
    (hd : d.WellFormed) (h : Counted d findings s) (hdiffer : d.NewKeysDiffer findings)
    (hc : Committed d s assessment d') (key : DedupKey) :
    d'.occurrences key = d.occurrences key + findings.countP (d.keyOf · = key) := by
  have hkeys' : (d'.incidents.map Incident.dedupKey).Nodup := by
    have := (commit_keys_nodup hd h).mpr hdiffer
    rwa [h.commit_keys, ← hc.keys h] at this
  by_cases hold : key ∈ d.incidents.map Incident.dedupKey
  · obtain ⟨row, hrow, rfl⟩ := List.mem_map.mp hold
    obtain ⟨-, hkey, hcount⟩ := h.held row hrow
    have hmem : s.object row ∈ d'.incidents := by
      rw [hc.incidents]
      exact List.mem_append_left _ (List.mem_map_of_mem hrow)
    have hafter := occurrences_of_mem hkeys' hmem
    rw [hkey] at hafter
    rw [hafter, hcount, occurrences_of_mem hd.keys hrow]
  · rw [occurrences_of_not_mem hold, Nat.zero_add]
    by_cases hnew : ∃ f ∈ findings, d.keyOf f = key
    · obtain ⟨f, hf, rfl⟩ := hnew
      have hmemKeys : d.keyOf f ∈ s.addedIncidents.map Incident.dedupKey := by
        rw [h.addedKeys]
        exact List.mem_map_of_mem (List.mem_filter.mpr ⟨hf, by simpa [MonitoringStore.isNew] using hold⟩)
      obtain ⟨i, hi, hkey⟩ := List.mem_map.mp hmemKeys
      have hmem : i ∈ d'.incidents := by
        rw [hc.incidents]
        exact List.mem_append_right _ hi
      have hafter := occurrences_of_mem hkeys' hmem
      rw [hkey, h.addedOnce i hi] at hafter
      have hone : 1 ≤ findings.countP (d.keyOf · = d.keyOf f) :=
        List.countP_pos_iff.mpr ⟨f, hf, by simp⟩
      have htwo : ¬ 2 ≤ findings.countP (d.keyOf · = d.keyOf f) := fun htwo => by
        obtain ⟨j, hj, hjkey⟩ := hdiffer _ htwo
        exact hold (hjkey ▸ List.mem_map_of_mem hj)
      omega
    · have hzero : findings.countP (d.keyOf · = key) = 0 :=
        List.countP_eq_zero.mpr fun f hf he => hnew ⟨f, hf, by simpa using he⟩
      rw [hzero]
      refine occurrences_of_not_mem fun hmem => ?_
      rw [hc.keys h] at hmem
      rcases List.mem_append.mp hmem with hmem | hmem
      · exact hold hmem
      · obtain ⟨f, hf, he⟩ := List.mem_map.mp hmem
        exact hnew ⟨f, (List.mem_filter.mp hf).1, he⟩

end

theorem Committed.grouped {d d' : MonitoringStore} {run : ComparisonRun} {s : UnitOfWork}
    {assessment : MonitoringAssessment} (hd : d.WellFormed)
    (hrun : run.runId ∉ d.assessments.map MonitoringAssessment.comparisonRunId)
    (h : Counted d (d.findingsOf run.runId) s) (hl : Linked (d.findingsOf run.runId) s)
    (hdiffer : d.NewKeysDiffer (d.findingsOf run.runId)) (hc : Committed d s assessment d') :
    Grouped d d' run where
  incidents f hf := by
    have hmem : d.keyOf f ∈ d'.incidents.map Incident.dedupKey := by
      rw [hc.keys h]
      by_cases hold : d.keyOf f ∈ d.incidents.map Incident.dedupKey
      · exact List.mem_append_left _ hold
      · refine List.mem_append_right _ (List.mem_map_of_mem (List.mem_filter.mpr ⟨hf, ?_⟩))
        simpa [MonitoringStore.isNew] using hold
    have hkeys := (commit_keys_nodup hd h).mpr hdiffer
    rw [h.commit_keys, ← hc.keys h] at hkeys
    have hcount := List.count_eq_one_of_mem hkeys hmem
    rw [List.count_eq_countP, List.countP_map] at hcount
    rw [← hcount]
    exact List.countP_congr fun i _ => by simp
  occurrences := hc.occurrences hd h hdiffer
  evidence f hf := by
    rw [hc.evidence, List.countP_append]
    have hold : d.evidence.countP (·.findingId = some f.id) = 0 :=
      List.countP_eq_zero.mpr fun e he heq => hd.unlinked hrun hf e he (by simpa using heq)
    have hnodup : (s.addedEvidence.map IncidentEvidence.findingId).Nodup := by
      rw [hl.findings]
      have := (hd.findingsOf_ids run.runId).map (Option.some_injective ℕ)
      rwa [List.map_map] at this
    have hmem : some f.id ∈ s.addedEvidence.map IncidentEvidence.findingId := by
      rw [hl.findings]
      exact List.mem_map_of_mem hf
    have hcount := List.count_eq_one_of_mem hnodup hmem
    rw [List.count_eq_countP, List.countP_map] at hcount
    rw [hold, Nat.zero_add, ← hcount]
    exact List.countP_congr fun e _ => by simp

/-- The transaction keeps the store well formed. -/
theorem Committed.wellFormed {d d' : MonitoringStore} {run : ComparisonRun} {s : UnitOfWork}
    {assessment : MonitoringAssessment} (hd : d.WellFormed)
    (hrun : run.runId ∉ d.assessments.map MonitoringAssessment.comparisonRunId)
    (hassessment : assessment.comparisonRunId = run.runId)
    (h : Counted d (d.findingsOf run.runId) s) (hl : Linked (d.findingsOf run.runId) s)
    (hdiffer : d.NewKeysDiffer (d.findingsOf run.runId)) (hc : Committed d s assessment d') :
    d'.WellFormed where
  keys := by
    have hkeys := (commit_keys_nodup hd h).mpr hdiffer
    rwa [h.commit_keys, ← hc.keys h] at hkeys
  ids := by
    have hheld : (d.incidents.map s.object).map Incident.id = d.incidents.map Incident.id := by
      rw [List.map_map]
      exact List.map_congr_left fun row hrow => (h.held row hrow).1
    rw [hc.incidents, List.map_append, hheld, List.nodup_append]
    refine ⟨hd.ids, h.addedIds, fun id hid id' hid' he => ?_⟩
    obtain ⟨i, hi, rfl⟩ := List.mem_map.mp hid
    obtain ⟨j, hj, rfl⟩ := List.mem_map.mp hid'
    have := hd.drawn i hi
    have := (h.addedNames j hj).1
    omega
  drawn i hi := by
    rw [hc.incidents] at hi
    rw [hc.names]
    rcases List.mem_append.mp hi with hi | hi
    · obtain ⟨row, hrow, rfl⟩ := List.mem_map.mp hi
      rw [(h.held row hrow).1]
      exact Nat.lt_of_lt_of_le (hd.drawn row hrow) h.names
    · exact (h.addedNames i hi).2
  findings := hc.findings ▸ hd.findings
  evidence := hc.evidence ▸ hl.commit_links hd (hd.findingsOf_ids _) fun _ hf => hd.unlinked hrun hf
  evidenceKeys := hc.evidence ▸ hl.commit_keys hd (hd.findingsOf_ids _) fun _ hf => hd.unlinked hrun hf
  keyed e he id hkey := by
    rw [hc.evidence] at he
    rcases List.mem_append.mp he with he | he
    · exact hd.keyed e he id hkey
    · obtain ⟨f, -, hlink, hkey'⟩ := hl.keys e he
      rw [hkey] at hkey'
      cases hkey'
      exact hlink
  assessments := hc.assessments ▸ commit_assessments hd (hassessment ▸ hrun)
  assessed e he f hf hlink := by
    rw [hc.evidence] at he
    rw [hc.findings] at hf
    rw [hc.assessments, List.map_append]
    rcases List.mem_append.mp he with he | he
    · exact List.mem_append_left _ (hd.assessed e he f hf hlink)
    · obtain ⟨g, hg, hlink', -⟩ := hl.keys e he
      obtain ⟨hmem, hgrun⟩ := MonitoringStore.mem_findingsOf.mp hg
      have hid : f.id = g.id := Option.some_injective _ (hlink.symm.trans hlink')
      have hsame : f = g := List.inj_on_of_nodup_map hd.findings hf hmem hid
      rw [hsame, hgrun]
      exact List.mem_append_right _ (by simp [hassessment])

/-! ### A run -/

/-- What `_next_pending_comparison` selects belongs to the binding and is not assessed. -/
theorem nextPendingComparison_spec {d : MonitoringStore} {run : ComparisonRun}
    (h : nextPendingComparison d = some run) :
    run.activationId = d.binding.activationId ∧ run.referenceRunId = d.binding.referenceRunId ∧
      run.policyHash = d.binding.comparisonPolicyHash ∧
      run.runId ∉ d.assessments.map MonitoringAssessment.comparisonRunId := by
  have hmem := List.mem_of_mem_head? h
  rw [List.mem_insertionSort, List.mem_filter] at hmem
  simpa [and_assoc] using hmem.2

section
variable {settings : MonitoringSettings} {workerId : String} {d : MonitoringStore}
  {run : ComparisonRun}

/-- A pending run is scanned as a whole before its health is projected and its transaction
commits. -/
theorem processComparisonRun_scanned (settings : MonitoringSettings) (workerId : String)
    (hd : d.WellFormed) (hnext : nextPendingComparison d = some run) :
    ∃ scan, forPages Finding.pageKey (scanPage settings run (settings.clock 0))
        (d.findingsOf run.runId) settings.findingPageSize ((d.findingsOf run.runId).length + 1) none
        { session := { db := d } } = some (.ok scan) ∧
      Scanned d (d.findingsOf run.runId) scan ∧
      processComparisonRun settings workerId d run = (do
        let (session, health) ← projectHealth run (settings.clock 0) scan
        { session with db := { session.db with health := health } }.commit
          { comparisonRunId := run.runId, comparisonStatus := run.status
            findingCount := scan.findingCount, processorWorkerId := workerId
            processedAt := settings.clock 0 }) := by
  obtain ⟨hactivation, hreference, hpolicy, hrun⟩ := nextPendingComparison_spec hnext
  obtain ⟨scan, hscan, hscanned⟩ := scan_run run (settings.clock 0) settings hd hrun
  refine ⟨scan, hscan, hscanned, ?_⟩
  unfold processComparisonRun
  simp only [hactivation, hreference, hpolicy, ne_eq, not_true_eq_false, if_false, hscan]

theorem processComparisonRun_groups (settings : MonitoringSettings) (workerId : String)
    (hd : d.WellFormed) (hnext : nextPendingComparison d = some run)
    (hdiffer : d.NewKeysDiffer (d.findingsOf run.runId)) (hfits : run.Fits (d.findingsOf run.runId)) :
    ∃ d', processComparisonRun settings workerId d run = .ok d' ∧ Grouped d d' run ∧ d'.WellFormed := by
  obtain ⟨-, -, -, hrun⟩ := nextPendingComparison_spec hnext
  obtain ⟨scan, -, hscanned, hprocess⟩ := processComparisonRun_scanned settings workerId hd hnext
  obtain ⟨session, health, hproject, hc, hl⟩ :=
    projectHealth_of_fits hd hscanned hfits (settings.clock 0)
  have hc' : Counted d (d.findingsOf run.runId)
      { session with db := { session.db with health := health } } :=
    ⟨hc.rows.projected health, hc.names, hc.held, hc.addedKeys, hc.addedOnce, hc.addedIds, hc.addedNames⟩
  have hl' : Linked (d.findingsOf run.runId)
      { session with db := { session.db with health := health } } := hl.of_added rfl
  obtain ⟨d', hcommit, hd'⟩ := commit_ok hd hc' hl' (hd.findingsOf_ids _) hdiffer
    (fun f hf => hd.unlinked hrun hf)
    { comparisonRunId := run.runId, comparisonStatus := run.status
      findingCount := scan.findingCount, processorWorkerId := workerId
      processedAt := settings.clock 0 } hrun
  refine ⟨d', ?_, hd'.grouped hd hrun hc' hl' hdiffer, hd'.wellFormed hd hrun rfl hc' hl' hdiffer⟩
  rw [hprocess, hproject]
  exact hcommit

theorem processComparisonRun_fails (settings : MonitoringSettings) (workerId : String)
    (hd : d.WellFormed) (hnext : nextPendingComparison d = some run)
    (hbad : ¬ (d.NewKeysDiffer (d.findingsOf run.runId) ∧ run.Fits (d.findingsOf run.runId))) :
    ∃ e, processComparisonRun settings workerId d run = .error e := by
  obtain ⟨scan, -, hscanned, hprocess⟩ := processComparisonRun_scanned settings workerId hd hnext
  rw [hprocess]
  by_cases hfits : run.Fits (d.findingsOf run.runId)
  · obtain ⟨session, health, hproject, hc, hl⟩ :=
      projectHealth_of_fits hd hscanned hfits (settings.clock 0)
    have hc' : Counted d (d.findingsOf run.runId)
        { session with db := { session.db with health := health } } :=
      ⟨hc.rows.projected health, hc.names, hc.held, hc.addedKeys, hc.addedOnce, hc.addedIds,
        hc.addedNames⟩
    rw [hproject]
    exact ⟨_, commit_of_shared hd hc' (fun hdiffer => hbad ⟨hdiffer, hfits⟩) _⟩
  · obtain ⟨e, he⟩ := projectHealth_of_not_fits hscanned hfits (settings.clock 0)
    exact ⟨e, by rw [he]; rfl⟩

/-- A run is grouped exactly when its findings fit its status and no two of them share a key that
has no incident yet. -/
theorem run_grouped_iff (settings : MonitoringSettings) (workerId : String)
    (hd : d.WellFormed) (hnext : nextPendingComparison d = some run) :
    (∃ d', processComparisonRun settings workerId d run = .ok d' ∧ Grouped d d' run) ↔
      d.NewKeysDiffer (d.findingsOf run.runId) ∧ run.Fits (d.findingsOf run.runId) := by
  constructor
  · rintro ⟨d', hok, -⟩
    by_contra hbad
    obtain ⟨e, he⟩ := processComparisonRun_fails settings workerId hd hnext hbad
    rw [hok] at he
    cases he
  · rintro ⟨hdiffer, hfits⟩
    obtain ⟨d', hok, hgrouped, -⟩ :=
      processComparisonRun_groups settings workerId hd hnext hdiffer hfits
    exact ⟨d', hok, hgrouped⟩

end

/-! ### A run with two findings of one key -/

def missedSignals : ComparisonRun :=
  { runId := "r", activationId := 1, referenceRunId := "b", policyHash := "p", strategyId := 1
    strategyVersionId := 1, strategyDefinitionHash := "h", windowEnd := 60000000
    status := .divergent, createdAt := 60000000 }

/-- A signal that was missed at a time which the key leaves out. -/
def missedSignal (id : ℕ) : Finding :=
  { id := id, comparisonRunId := "r", strategyId := 1, strategyVersionId := 1
    strategyDefinitionHash := "h", assetId := some 1, divergenceType := .missingSignal
    severity := .warning, category := "signal", expectedValue := [("signal_id", "\"s\"")]
    observedValue := [], createdAt := 60000000 }

def monitored (incidents : List Incident) : MonitoringStore where
  binding := {
    id := 1, activationId := 1, referenceRunId := "b", policyHash := "m"
    comparisonPolicyHash := "p", registeredAt := 0, leaseExpiresAt := 0
    policy := {
      causeSeverity := ⟨.warning, .warning, .warning, .critical, .informational, .critical⟩
      escalation := { warningAfterOccurrences := 2, criticalAfterOccurrences := 5 }
      recoveryHealthyChecks := 3, staleAfterSeconds := 300, comparisonStaleAfterSeconds := 3600 } }
  runs := [missedSignals]
  findings := [missedSignal 7, missedSignal 8]
  incidents := incidents
  evidence := []
  assessments := []
  health := {}
  names := 1

def onePerPage : MonitoringSettings := { findingPageSize := 1, clock := fun n => n }

/-- Two findings of one instant on pages of one finding. -/
theorem finding_pages_exact_tie : ∃ pages : List (List Finding),
    pages.flatten.Perm [missedSignal 7, missedSignal 8] ∧ pages.flatten.Nodup ∧
    (∀ page ∈ pages, page.length ≤ 1) ∧
    ∀ scan, forPages Finding.pageKey (scanPage onePerPage missedSignals 0)
        ((monitored []).findingsOf "r") 1 (((monitored []).findingsOf "r").length + 1) none scan =
          some (pages.foldlM (scanPage onePerPage missedSignals 0) scan) ∧
      ∀ scan', pages.foldlM (scanPage onePerPage missedSignals 0) scan = .ok scan' →
        scan'.findingCount = scan.findingCount + pages.flatten.length :=
  finding_pages_exact (d := monitored []) (by decide) onePerPage missedSignals 0

/-- The incident that an earlier run opened for the key. -/
def earlierIncident : Incident :=
  openIncident (monitored []).binding missedSignals (missedSignal 7) .strategyBehavior 0 0

/-- With an incident of the key in the table both findings are counted in it. -/
theorem recurring_findings_grouped : ∃ d',
    processComparisonRun onePerPage "w" (monitored [earlierIncident]) missedSignals = .ok d' ∧
      Grouped (monitored [earlierIncident]) d' missedSignals := by
  have hwell : (monitored [earlierIncident]).WellFormed :=
    ⟨by decide, by decide, by decide, by decide, by decide, by decide, by simp [monitored],
      by decide, by simp [monitored]⟩
  have hkey : ∀ f ∈ (monitored [earlierIncident]).findingsOf missedSignals.runId,
      earlierIncident.dedupKey = (monitored [earlierIncident]).keyOf f := by decide
  refine (run_grouped_iff onePerPage "w" hwell rfl).mpr ⟨fun key htwo => ?_, by simp [missedSignals],
    fun _ => by decide⟩
  obtain ⟨f, hf, he⟩ := List.countP_pos_iff.mp (Nat.lt_of_lt_of_le Nat.zero_lt_two htwo)
  exact ⟨earlierIncident, by simp [monitored], (hkey f hf).trans (of_decide_eq_true he)⟩

/-- Without one the second finding does not see the first one's, and nothing is committed. -/
theorem first_findings_rejected :
    nextPendingComparison (monitored []) = some missedSignals ∧
    ¬ ∃ d', processComparisonRun onePerPage "w" (monitored []) missedSignals = .ok d' ∧
      Grouped (monitored []) d' missedSignals := by
  refine ⟨rfl, ?_⟩
  rintro ⟨d', hok, -⟩
  have hrejected : (processComparisonRun onePerPage "w" (monitored []) missedSignals).isOk = false := by
    decide +kernel
  rw [hok] at hrejected
  cases hrejected

end Quantive.Monitoring
