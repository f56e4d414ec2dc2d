import Quantive.Monitoring.Recovery
import Quantive.Strategies.Contracts

/-!
# The incident ledger

Whatever touches an incident opens it, counts one more occurrence together with its evidence, or
changes its lifecycle. So the count of an incident is the number of its evidence rows, and its
severity keeps up with the policy.
-/

namespace Quantive.Monitoring
open LiveStrategy (LiveStrategyActivation)
open Strategies (strip)

/-! ### Calls -/

/-- `_locked_incident` -/
def UnitOfWork.lockedIncident (s : UnitOfWork) (incidentId : ℕ) : Option Incident :=
  (s.selectIncidents fun i => i.id = incidentId).head?

/-- `acknowledge_incident`, `strategy_monitoring.py:311-337`; the columns of the acknowledgement are
left out. -/
def acknowledgeIncident (incidentId : ℕ) (actor : String) (note : Option String)
    (d : MonitoringStore) : Except MonitoringError MonitoringStore :=
  if strip actor = "" then .error (.monitoring "acknowledgement actor cannot be blank")
  else if note.any fun n => 2000 < n.length then
    .error (.monitoring "acknowledgement note exceeds 2000 characters")
  else
    let s : UnitOfWork := { db := d }
    match s.lockedIncident incidentId with
    | none => .error (.monitoring s!"incident {incidentId} not found")
    | some incident =>
      if incident.status = .resolved then
        .error (.monitoring "a resolved incident cannot be acknowledged")
      else if incident.status = .open then
        (s.change { incident with status := .acknowledged }).commitStates
      else s.commitStates

/-- `resolve_incident`, `strategy_monitoring.py:339-365`. -/
def resolveIncidentBy (incidentId : ℕ) (actor : String) (note : Option String) (now : ℤ)
    (d : MonitoringStore) : Except MonitoringError MonitoringStore :=
  if strip actor = "" then .error (.monitoring "resolution actor cannot be blank")
  else if note.any fun n => 2000 < n.length then
    .error (.monitoring "resolution note exceeds 2000 characters")
  else
    let s : UnitOfWork := { db := d }
    match s.lockedIncident incidentId with
    | none => .error (.monitoring s!"incident {incidentId} not found")
    | some incident =>
      if incident.status ≠ .resolved then
        (s.change { incident with
          status := .resolved, resolvedAt := some now, resolvedBy := some (strip actor)
          resolutionNote := note }).commitStates
      else s.commitStates

/-- The transactions on the rows of a binding. `fail` has whether the stored policy validates. -/
inductive MonitoringCall where
  | compare (settings : MonitoringSettings) (workerId : String) (activation : LiveStrategyActivation)
      (now : ℤ)
  | finalize (activation : LiveStrategyActivation) (now now' : ℤ)
  | fail (activation : LiveStrategyActivation) (validPolicy : Bool) (error : String) (now : ℤ)
  | renew (leaseExpiresAt : ℤ)
  | acknowledge (incidentId : ℕ) (actor : String) (note : Option String)
  | resolve (incidentId : ℕ) (actor : String) (note : Option String) (now : ℤ)

/-- An exception rolls the transaction back. -/
def MonitoringCall.execute : MonitoringCall → MonitoringStore → Except MonitoringError MonitoringStore
  | .compare settings workerId activation now, d => processOneComparison settings workerId activation now d
  | .finalize activation now now', d => finalizeBindingCycle activation now now' d
  | .fail activation validPolicy error now, d =>
    recordBindingError activation (if validPolicy then some d.binding.policy else none) error now d
  | .renew leaseExpiresAt, d => .ok { d with binding := { d.binding with leaseExpiresAt := leaseExpiresAt } }
  | .acknowledge incidentId actor note, d => acknowledgeIncident incidentId actor note d
  | .resolve incidentId actor note now, d => resolveIncidentBy incidentId actor note now d

/-- The rows of one binding, and the findings that are linked by evidence of other bindings. -/
structure MonitoringTables where
  store : MonitoringStore
  linkedElsewhere : List ℕ := []

def MonitoringStore.assessed (d : MonitoringStore) : List String :=
  d.assessments.map MonitoringAssessment.comparisonRunId

/-- The findings that evidence links. -/
def MonitoringStore.linkedFindings (d : MonitoringStore) : List ℕ :=
  d.evidence.filterMap IncidentEvidence.findingId

/-- `admitted` restricts the calls. -/
inductive TablesStep (admitted : MonitoringStore → MonitoringCall → Prop) :
    MonitoringTables → MonitoringTables → Prop
  | call {t : MonitoringTables} {d : MonitoringStore} (c : MonitoringCall)
      (h : c.execute t.store = .ok d) (ha : admitted t.store c) :
      TablesStep admitted t { t with store := d }
  | arrive {t : MonitoringTables} {run : ComparisonRun} {findings : List Finding}
      (h : Arrives t.store run findings) (hnew : ∀ f ∈ findings, f.id ∉ t.linkedElsewhere) :
      TablesStep admitted t { t with store := t.store.arrived run findings }
  /-- Another binding assesses a run and links its findings. -/
  | assess {t : MonitoringTables} {a : MonitoringAssessment}
      (h : a.comparisonRunId ∉ t.store.assessed) :
      TablesStep admitted t {
        store := { t.store with assessments := t.store.assessments ++ [a] }
        linkedElsewhere := t.linkedElsewhere ++ (t.store.findingsOf a.comparisonRunId).map Finding.id }

/-- What other bindings linked belongs to runs that are assessed. -/
structure MonitoringTables.Separate (t : MonitoringTables) : Prop where
  links : (t.store.linkedFindings ++ t.linkedElsewhere).Nodup
  assessed : ∀ id ∈ t.linkedElsewhere, ∃ f ∈ t.store.findings, f.id = id ∧
    f.comparisonRunId ∈ t.store.assessed

/-- A binding that was just registered. -/
structure MonitoringTables.Registered (t : MonitoringTables) : Prop where
  wellFormed : t.store.WellFormed
  incidents : t.store.incidents = []
  evidence : t.store.evidence = []
  separate : t.Separate

/-! ### Entries of the ledger -/

/-- What a key says of its incident. -/
def DedupKey.label : DedupKey → IncidentType × HealthCause
  | .finding _ _ _ _ _ _ divergenceType _ cause _ _ _ => (.divergence divergenceType, cause)
  | .state payload =>
    if payload.lookup "divergence_type" = some "stale_strategy_state" then (.staleStrategyState, .runtime)
    else if payload.lookup "divergence_type" = some "stale_comparison_evidence" then
      (.staleComparisonEvidence, .reference)
    else (.divergence .evaluatorFailure, .runtime)

/-- An incident as its evidence and the policy have it. -/
structure Incident.Booked (policy : MonitoringPolicy) (evidence : List IncidentEvidence) (i : Incident) :
    Prop where
  counted : i.occurrenceCount = evidence.countP (·.incidentId = i.id)
  severe : ∃ h : 1 ≤ i.occurrenceCount,
    severityRank (policy.severityFor i.cause i.occurrenceCount h) ≤ severityRank i.severity
  resolved : i.status = .resolved ↔ i.resolvedAt.isSome
  label : (i.type, i.cause) = i.dedupKey.label

def MonitoringStore.Ledger (d : MonitoringStore) : Prop :=
  ∀ i ∈ d.incidents, i.Booked d.binding.policy d.evidence

/-! ### Sessions -/

/-- What a session holds: every object is booked on the rows and the added evidence, and none of them
lost severity. -/
structure LedgerSession (d : MonitoringStore) (s : UnitOfWork) : Prop where
  rows : d.SameRows s.db
  names : d.names ≤ s.db.names
  held : ∀ row ∈ d.incidents, (s.object row).id = row.id ∧ (s.object row).dedupKey = row.dedupKey ∧
    severityRank row.severity ≤ severityRank (s.object row).severity ∧
    (s.object row).Booked d.binding.policy (d.evidence ++ s.addedEvidence)
  added : ∀ i ∈ s.addedIncidents, i.id < s.db.names ∧ d.names ≤ i.id ∧
    i.Booked d.binding.policy (d.evidence ++ s.addedEvidence)
  linked : ∀ e ∈ s.addedEvidence, e.incidentId < s.db.names

section
variable {policy : MonitoringPolicy} {evidence : List IncidentEvidence} {d : MonitoringStore}
  {s : UnitOfWork} {row incident : Incident} {e : IncidentEvidence}

theorem Incident.Booked.other (h : incident.Booked policy evidence) (he : e.incidentId ≠ incident.id) :
    incident.Booked policy (evidence ++ [e]) := by
  refine ⟨?_, h.severe, h.resolved, h.label⟩
  rw [List.countP_append, h.counted]
  simp [he]

/-- One more occurrence, with its evidence. -/
theorem Incident.Booked.recur {i : Incident} (h : i.Booked policy evidence) (hid : incident.id = i.id)
    (hkey : incident.dedupKey = i.dedupKey) (hlabel : (incident.type, incident.cause) = (i.type, i.cause))
    (hcount : incident.occurrenceCount = i.occurrenceCount + 1)
    (hsevere : ∀ hpos : 1 ≤ incident.occurrenceCount,
      severityRank (policy.severityFor incident.cause incident.occurrenceCount hpos) ≤
        severityRank incident.severity)
    (hresolved : incident.status = .resolved ↔ incident.resolvedAt.isSome)
    (he : e.incidentId = incident.id) : incident.Booked policy (evidence ++ [e]) := by
  have hpos : 1 ≤ incident.occurrenceCount := by omega
  refine ⟨?_, ⟨hpos, hsevere hpos⟩, hresolved, ?_⟩
  · rw [hcount, List.countP_append, h.counted, hid]
    simp [he, hid]
  · rw [hlabel, hkey]
    exact h.label

theorem LedgerSession.start (hledger : d.Ledger) : LedgerSession d { db := d } where
  rows := ⟨_, _, _, rfl⟩
  names := Nat.le_refl _
  held row hrow := by
    have hbooked := hledger row hrow
    rw [← List.append_nil d.evidence] at hbooked
    exact ⟨rfl, rfl, Nat.le_refl _, hbooked⟩
  added := by simp
  linked := by simp

theorem LedgerSession.project (hs : LedgerSession d s) (h : HealthState) : LedgerSession d (s.project h) :=
  ⟨hs.rows.projected h, hs.names, hs.held, hs.added, hs.linked⟩

theorem LedgerSession.renewLease (hs : LedgerSession d s) (expiry : ℤ) :
    LedgerSession d (s.renewLease expiry) :=
  ⟨hs.rows.leased expiry, hs.names, hs.held, hs.added, hs.linked⟩

/-- The ids of rows are below those of the session, and the ids of the evidence are known. -/
theorem LedgerSession.evidence_lt (hd : d.Constrained) (hs : LedgerSession d s) :
    ∀ e ∈ d.evidence ++ s.addedEvidence, e.incidentId < s.db.names := by
  intro e he
  rcases List.mem_append.mp he with he | he
  · obtain ⟨i, hi, hid⟩ := hd.linked e he
    have hlt := hd.drawn i hi
    have hle := hs.names
    omega
  · exact hs.linked e he

/-- Another state of an object with the same occurrences. -/
theorem LedgerSession.change (hd : d.Constrained) (hs : LedgerSession d s) (hrow : row ∈ d.incidents)
    (hid : incident.id = row.id) (hkey : incident.dedupKey = row.dedupKey)
    (hseverity : severityRank row.severity ≤ severityRank incident.severity)
    (hbooked : incident.Booked d.binding.policy (d.evidence ++ s.addedEvidence)) :
    LedgerSession d (s.change incident) := by
  refine ⟨hs.rows, hs.names, fun row' hrow' => ?_, hs.added, hs.linked⟩
  rw [object_change]
  by_cases he : incident.id = row'.id
  · have hsame : row = row' := List.inj_on_of_nodup_map hd.ids hrow hrow' (hid.symm.trans he)
    subst hsame
    rw [if_pos he]
    exact ⟨hid, hkey, hseverity, hbooked⟩
  · rw [if_neg he]
    exact hs.held row' hrow'

/-- A further occurrence of a row, with its evidence. -/
theorem LedgerSession.recur (hd : d.Constrained) (hs : LedgerSession d s) (hrow : row ∈ d.incidents)
    (hid : incident.id = (s.object row).id) (hkey : incident.dedupKey = (s.object row).dedupKey)
    (hseverity : severityRank (s.object row).severity ≤ severityRank incident.severity)
    (hbooked : incident.Booked d.binding.policy (d.evidence ++ s.addedEvidence ++ [e]))
    (he : e.incidentId = incident.id) : LedgerSession d ((s.change incident).drawn.addEvidence e) := by
  obtain ⟨hrowId, hrowKey, hrowSeverity, -⟩ := hs.held row hrow
  have hlt := hd.drawn row hrow
  have hle := hs.names
  have hincident : incident.id = row.id := hid.trans hrowId
  refine ⟨hs.rows.drawn _, Nat.le_succ_of_le hs.names, fun row' hrow' => ?_, fun i hi => ?_,
    fun e' he' => ?_⟩
  · have hobject : ((s.change incident).drawn.addEvidence e).object row' =
        if incident.id = row'.id then incident else s.object row' := object_change s incident row'
    have hevidence : d.evidence ++ ((s.change incident).drawn.addEvidence e).addedEvidence =
        d.evidence ++ s.addedEvidence ++ [e] := (List.append_assoc _ _ _).symm
    rw [hobject, hevidence]
    by_cases hsame : incident.id = row'.id
    · obtain rfl : row = row' :=
        List.inj_on_of_nodup_map hd.ids hrow hrow' (hincident.symm.trans hsame)
      rw [if_pos hsame]
      exact ⟨hsame, hkey.trans hrowKey, hrowSeverity.trans hseverity, hbooked⟩
    · obtain ⟨hid', hkey', hseverity', hbooked'⟩ := hs.held row' hrow'
      rw [if_neg hsame]
      refine ⟨hid', hkey', hseverity', hbooked'.other ?_⟩
      rw [he, hid']
      exact hsame
  · obtain ⟨hnew, hfresh, hbooked'⟩ := hs.added i hi
    refine ⟨Nat.lt_succ_of_lt hnew, hfresh, ?_⟩
    show i.Booked _ (d.evidence ++ (s.addedEvidence ++ [e]))
    rw [← List.append_assoc]
    refine hbooked'.other ?_
    omega
  · show e'.incidentId < s.db.names + 1
    rcases List.mem_append.mp he' with he' | he'
    · exact Nat.lt_succ_of_lt (hs.linked e' he')
    · rw [List.mem_singleton.mp he']
      omega

/-- A new incident, with its evidence. -/
theorem LedgerSession.open (hd : d.Constrained) (hs : LedgerSession d s) (hid : incident.id = s.db.names)
    (hcount : incident.occurrenceCount = 1)
    (hsevere : severityRank (d.binding.policy.severityFor incident.cause 1 Nat.one_pos) ≤
      severityRank incident.severity)
    (hresolved : incident.status = .resolved ↔ incident.resolvedAt.isSome)
    (hlabel : (incident.type, incident.cause) = incident.dedupKey.label)
    (he : e.incidentId = incident.id) :
    LedgerSession d ((s.drawn.addIncident incident).drawn.addEvidence e) := by
  have hlt := hs.evidence_lt hd
  have hle := hs.names
  have hbooked : incident.Booked d.binding.policy (d.evidence ++ s.addedEvidence ++ [e]) := by
    have hnone : (d.evidence ++ s.addedEvidence).countP (·.incidentId = incident.id) = 0 :=
      List.countP_eq_zero.mpr fun e' he' hsame => by
        have hlt' := hlt e' he'
        have heq : e'.incidentId = incident.id := of_decide_eq_true hsame
        omega
    refine ⟨?_, ?_, hresolved, hlabel⟩
    · rw [List.countP_append, hnone, hcount]
      simp [he]
    · refine ⟨by omega, ?_⟩
      simp only [hcount]
      exact hsevere
  refine ⟨(hs.rows.drawn _).drawn _, by show d.names ≤ s.db.names + 1 + 1; omega, fun row hrow => ?_,
    fun i hi => ?_, fun e' he' => ?_⟩
  · obtain ⟨hid', hkey', hseverity', hbooked'⟩ := hs.held row hrow
    have hold := hd.drawn row hrow
    refine ⟨hid', hkey', hseverity', ?_⟩
    show (s.object row).Booked _ (d.evidence ++ (s.addedEvidence ++ [e]))
    rw [← List.append_assoc]
    refine hbooked'.other ?_
    omega
  · show i.id < s.db.names + 1 + 1 ∧ d.names ≤ i.id ∧
      i.Booked _ (d.evidence ++ (s.addedEvidence ++ [e]))
    rw [← List.append_assoc]
    rcases List.mem_append.mp hi with hi | hi
    · obtain ⟨hnew, hfresh, hbooked'⟩ := hs.added i hi
      refine ⟨by omega, hfresh, hbooked'.other ?_⟩
      omega
    · rw [List.mem_singleton.mp hi]
      exact ⟨by omega, by omega, hbooked⟩
  · show e'.incidentId < s.db.names + 1 + 1
    rcases List.mem_append.mp he' with he' | he'
    · have hlt' := hs.linked e' he'
      omega
    · rw [List.mem_singleton.mp he']
      omega

end

/-! ### What the calls do to a session -/

theorem severityRank_max (a b : IncidentSeverity) :
    severityRank (maxSeverity a b) = max (severityRank a) (severityRank b) := by
  unfold maxSeverity
  split <;> omega

section
variable {policy : MonitoringPolicy} {evidence : List IncidentEvidence} {d : MonitoringStore}
  {s : UnitOfWork} {i : Incident} {e : IncidentEvidence}

theorem StateFinding.recurIncident_booked (h : i.Booked policy evidence) {f : StateFinding} (now : ℤ)
    (hkey : i.dedupKey = .state f.key) (hlabel : (f.type, f.cause) = (DedupKey.state f.key).label)
    (hsevere : ∀ n hn, severityRank (policy.severityFor f.cause n hn) ≤ severityRank (f.severityFor n hn))
    (he : e.incidentId = i.id) :
    severityRank i.severity ≤ severityRank (f.recurIncident i now).severity ∧
    (f.recurIncident i now).Booked policy (evidence ++ [e]) := by
  have hcause : i.cause = f.cause := by
    have hlabels := h.label.trans (hkey ▸ hlabel.symm)
    exact congrArg Prod.snd hlabels
  have hseverity : severityRank (f.recurIncident i now).severity = max (severityRank i.severity)
      (severityRank (f.severityFor (i.occurrenceCount + 1) (recurrence_counted i))) := by
    rw [← severityRank_max]
    unfold StateFinding.recurIncident
    dsimp only
    split <;> rfl
  have hcount : (f.recurIncident i now).occurrenceCount = i.occurrenceCount + 1 := by
    unfold StateFinding.recurIncident
    dsimp only
    split <;> rfl
  have hfields : (f.recurIncident i now).id = i.id ∧ (f.recurIncident i now).dedupKey = i.dedupKey ∧
      (f.recurIncident i now).type = i.type ∧ (f.recurIncident i now).cause = i.cause := by
    unfold StateFinding.recurIncident
    by_cases hresolved : i.status = .resolved <;> simp [hresolved]
  obtain ⟨hid, hdedup, htype, hkept⟩ := hfields
  constructor
  · omega
  · refine h.recur hid hdedup (by rw [htype, hkept]) hcount (fun hpos => ?_) ?_ (he.trans hid.symm)
    · have hpolicy := hsevere (i.occurrenceCount + 1) (recurrence_counted i)
      simp only [hcount, hkept, hcause]
      omega
    · unfold StateFinding.recurIncident
      dsimp only
      split
      · simp
      · exact h.resolved

theorem LedgerSession.recordState (hd : d.Constrained) (hs : LedgerSession d s) {f : StateFinding}
    (now : ℤ) (hlabel : (f.type, f.cause) = (DedupKey.state f.key).label)
    (hsevere : ∀ n hn, severityRank (d.binding.policy.severityFor f.cause n hn) ≤
      severityRank (f.severityFor n hn)) : LedgerSession d (recordState f now s).2 := by
  rcases recordState_cases f now s with hopened | ⟨row, hmem, hkey, ⟨-, hseen⟩ | hrecurred⟩
  · rw [hopened]
    exact hs.open hd rfl rfl (hsevere 1 Nat.one_pos) (by simp [StateFinding.openIncident]) hlabel rfl
  · rw [hseen]
    exact hs
  · rw [hrecurred]
    rw [hs.rows.incidents] at hmem
    obtain ⟨-, hrowKey, -, hbooked⟩ := hs.held row hmem
    obtain ⟨hid, hdedup, -, -⟩ := f.recurIncident_fields (s.object row) now
    obtain ⟨hseverity, hagain⟩ := StateFinding.recurIncident_booked
      (e := f.evidence s.db.names (f.recurIncident (s.object row) now).id now) hbooked now
      (hrowKey.trans hkey) hlabel hsevere hid
    exact hs.recur hd hmem hid hdedup hseverity hagain rfl

/-- Objects that a SELECT found change their lifecycle. -/
theorem LedgerSession.lifecycle (hd : d.Constrained) (hs : LedgerSession d s) {g : Incident → Incident}
    {condition : Incident → Bool}
    (hg : ∀ i : Incident, i.Booked d.binding.policy (d.evidence ++ s.addedEvidence) →
      (g i).Booked d.binding.policy (d.evidence ++ s.addedEvidence) ∧ (g i).id = i.id ∧
        (g i).dedupKey = i.dedupKey ∧ (g i).severity = i.severity) :
    LedgerSession d ((s.selectIncidents condition).foldl (fun s i => s.change (g i)) s) := by
  have hkept : LedgerSession d ((s.selectIncidents condition).foldl (fun s i => s.change (g i)) s) ∧
      ((s.selectIncidents condition).foldl (fun s i => s.change (g i)) s).addedEvidence =
        s.addedEvidence := by
    refine List.foldlRecOn (motive := fun s' => LedgerSession d s' ∧ s'.addedEvidence = s.addedEvidence)
      _ _ ⟨hs, rfl⟩ fun s' hs' i hi => ?_
    obtain ⟨hsession, hevidence⟩ := hs'
    obtain ⟨row, hrow, rfl⟩ := List.mem_map.mp hi
    have hmem : row ∈ d.incidents := hs.rows.incidents ▸ (List.mem_filter.mp hrow).1
    obtain ⟨hid, hkey, hseverity, hbooked⟩ := hs.held row hmem
    obtain ⟨hbooked', hid', hkey', hseverity'⟩ := hg _ hbooked
    refine ⟨hsession.change hd hmem (hid'.trans hid) (hkey'.trans hkey) (hseverity' ▸ hseverity) ?_,
      hevidence⟩
    rw [hevidence]
    exact hbooked'
  exact hkept.1

theorem LedgerSession.recoverStale (hd : d.Constrained) (hs : LedgerSession d s) (type : IncidentType)
    (note : String) (now : ℤ) : LedgerSession d (recoverStale type note now s) := by
  refine hs.lifecycle hd fun i hi => ⟨⟨hi.counted, hi.severe, ?_, hi.label⟩, rfl, rfl, rfl⟩
  simp [closeStale]

theorem LedgerSession.recordHealthyComparison (hd : d.Constrained) (hs : LedgerSession d s)
    (h : HealthState) (now : ℤ) : LedgerSession d (recordHealthyComparison s h now).1 := by
  unfold Monitoring.recordHealthyComparison
  dsimp only
  split
  · split <;> exact hs
  · refine hs.lifecycle hd fun i hi => ⟨⟨hi.counted, hi.severe, ?_, hi.label⟩, rfl, rfl, rfl⟩
    simp [resolveIncident]

theorem LedgerSession.samePolicy (hs : LedgerSession d s) : s.db.binding.policy = d.binding.policy := by
  obtain ⟨names, lease, health, he⟩ := hs.rows
  rw [he]

theorem recurIncident_booked (h : i.Booked policy evidence) {binding : MonitoringBinding}
    (run : ComparisonRun) {f : Finding} (now : ℤ) (hpolicy : binding.policy = policy)
    (hkey : i.dedupKey = incidentDedupKey binding f (causeForDivergence f.divergenceType))
    (he : e.incidentId = i.id) :
    severityRank i.severity ≤
      severityRank (recurIncident binding run f (causeForDivergence f.divergenceType) i now).severity ∧
    (recurIncident binding run f (causeForDivergence f.divergenceType) i now).Booked policy
      (evidence ++ [e]) := by
  have hcause : i.cause = causeForDivergence f.divergenceType := by
    have hlabel := h.label
    rw [hkey] at hlabel
    exact congrArg Prod.snd hlabel
  have hseverity : severityRank (recurIncident binding run f (causeForDivergence f.divergenceType) i
      now).severity = max (max (severityRank i.severity) (severityRank (binding.policy.severityFor
        (causeForDivergence f.divergenceType) (i.occurrenceCount + 1) (recurrence_counted i))))
      (severityRank f.severity) := by
    rw [← severityRank_max, ← severityRank_max]
    unfold recurIncident
    dsimp only
    split <;> rfl
  have htype : (recurIncident binding run f (causeForDivergence f.divergenceType) i now).type = i.type ∧
      (recurIncident binding run f (causeForDivergence f.divergenceType) i now).cause = i.cause := by
    unfold recurIncident
    by_cases hresolved : i.status = .resolved <;> simp [hresolved]
  obtain ⟨hid, hdedup, hcount⟩ := recurIncident_fields binding run f
    (causeForDivergence f.divergenceType) i now
  constructor
  · omega
  · refine h.recur hid hdedup (by rw [htype.1, htype.2]) hcount (fun hpos => ?_) ?_ (he.trans hid.symm)
    · simp only [hcount, htype.2, hcause, hseverity, hpolicy]
      omega
    · unfold recurIncident
      dsimp only
      split
      · simp
      · exact h.resolved

theorem recordFinding_ledger (hd : d.Constrained) {run : ComparisonRun} {now : ℤ} {f : Finding}
    {c : HealthCause × IncidentSeverity} {s' : UnitOfWork}
    (h : recordFinding run now s f = .ok (c, s')) (hs : LedgerSession d s) : LedgerSession d s' := by
  obtain ⟨-, ⟨-, rfl⟩ | rfl | ⟨row, hrow, hkey, rfl⟩⟩ := recordFinding_cases h
  · exact hs
  · refine hs.open hd rfl rfl ?_ (by simp [openIncident]) rfl rfl
    have hmax := severityRank_max (s.db.binding.policy.severityFor (causeForDivergence f.divergenceType)
      1 Nat.one_pos) f.severity
    rw [hs.samePolicy] at hmax
    simp only [openIncident, hs.samePolicy]
    omega
  · have hmem : row ∈ d.incidents := hs.rows.incidents ▸ hrow
    obtain ⟨-, hrowKey, -, hbooked⟩ := hs.held row hmem
    obtain ⟨hid, hdedup, -⟩ := recurIncident_fields s.db.binding run f
      (causeForDivergence f.divergenceType) (s.object row) now
    obtain ⟨hseverity, hrecurred⟩ := recurIncident_booked hbooked run now hs.samePolicy
      (hrowKey.trans hkey) (e := run.evidence f s.db.names _ now) hid
    exact hs.recur hd hmem hid hdedup hseverity hrecurred rfl

/-- What each finding of a page keeps, the page keeps. -/
theorem scanPage_kept {I : Scan → Prop} {settings : MonitoringSettings} {run : ComparisonRun} {now : ℤ}
    {page : List Finding}
    (hfinding : ∀ scan scan', ∀ f ∈ page, scanFinding run now scan f = .ok scan' → I scan → I scan')
    (hlease : ∀ scan expiry, I scan →
      I { scan with session := scan.session.renewLease expiry, renewals := scan.renewals + 1 })
    {scan scan' : Scan} (h : scanPage settings run now scan page = .ok scan') (hI : I scan) :
    I scan' := by
  unfold scanPage at h
  cases hpage : page.foldlM (scanFinding run now) scan with
  | error e => simp [hpage, bind, Except.bind] at h
  | ok scan₁ =>
    have h₁ : I scan₁ := by
      clear h
      induction page generalizing scan with
      | nil =>
        cases hpage
        exact hI
      | cons f page ih =>
        rw [List.foldlM_cons] at hpage
        cases hscan : scanFinding run now scan f with
        | error e => simp [hscan, bind, Except.bind] at hpage
        | ok scan₂ =>
          rw [hscan] at hpage
          have hhead := hfinding scan scan₂ f List.mem_cons_self hscan hI
          exact ih (fun scan scan' g hg => hfinding scan scan' g (List.mem_cons_of_mem _ hg)) hhead hpage
    simp only [hpage, bind, Except.bind, pure, Except.pure, Except.ok.injEq] at h
    rw [← h]
    exact hlease scan₁ _ h₁

theorem scanFinding_ok {run : ComparisonRun} {now : ℤ} {scan scan' : Scan} {f : Finding}
    (h : scanFinding run now scan f = .ok scan') : ∃ c session,
      recordFinding run now scan.session f = .ok (c, session) ∧ scan' = { scan with
        session := session
        findingCount := scan.findingCount + 1
        projection := some (moreActionableProjection scan.projection c)
        knownProjection := if c.1 = .reference then scan.knownProjection
          else some (moreActionableProjection scan.knownProjection c) } := by
  unfold scanFinding at h
  cases hrecord : recordFinding run now scan.session f with
  | error e => simp [hrecord, bind, Except.bind] at h
  | ok result =>
    simp only [hrecord, bind, Except.bind, pure, Except.pure, Except.ok.injEq] at h
    exact ⟨result.1, result.2, rfl, h.symm⟩

/-- Only a healthy run touches incidents when its health is projected. -/
theorem projectHealth_session {run : ComparisonRun} {now : ℤ} {scan : Scan} {health : HealthState}
    (h : projectHealth run now scan = .ok (s, health)) :
    s = scan.session ∨ ∃ complete, s = (recordHealthyComparison scan.session complete now).1 := by
  unfold projectHealth at h
  dsimp only at h
  split at h
  · split at h
    · cases h
    · split at h
      · exact .inl (congrArg Prod.fst (Except.ok.inj h)).symm
      · exact .inr ⟨_, (congrArg Prod.fst (Except.ok.inj h)).symm⟩
  · split at h <;> exact .inl (congrArg Prod.fst (Except.ok.inj h)).symm
  · split at h
    · cases h
    · split at h <;> exact .inl (congrArg Prod.fst (Except.ok.inj h)).symm

end

/-! ### Transactions -/

/-- A commit keeps the ledger, and every incident with at least its severity. -/
structure LedgerKept (d d' : MonitoringStore) : Prop where
  ledger : d'.Ledger
  policy : d'.binding.policy = d.binding.policy
  incidents : ∀ i ∈ d.incidents, ∃ i' ∈ d'.incidents, i'.id = i.id ∧ i'.dedupKey = i.dedupKey ∧
    severityRank i.severity ≤ severityRank i'.severity

section
variable {d d' : MonitoringStore} {s : UnitOfWork}

theorem LedgerSession.written (hs : LedgerSession d s) (assessments : List MonitoringAssessment) :
    LedgerKept d { s.written with assessments := assessments } := by
  have hevidence : s.written.evidence = d.evidence ++ s.addedEvidence := by
    rw [← hs.rows.evidence]
    rfl
  refine ⟨fun i hi => ?_, hs.samePolicy, fun i hi => ?_⟩
  · show i.Booked s.db.binding.policy s.written.evidence
    rw [hs.samePolicy, hevidence]
    rcases List.mem_append.mp hi with hi | hi
    · obtain ⟨row, hrow, rfl⟩ := List.mem_map.mp hi
      exact (hs.held row (hs.rows.incidents ▸ hrow)).2.2.2
    · exact (hs.added i hi).2.2
  · obtain ⟨hid, hkey, hseverity, -⟩ := hs.held i hi
    refine ⟨s.object i, ?_, hid, hkey, hseverity⟩
    exact List.mem_append_left _ (List.mem_map_of_mem (hs.rows.incidents ▸ hi))

theorem LedgerSession.commit (hs : LedgerSession d s) (h : s.commitStates = .ok d') : LedgerKept d d' := by
  obtain ⟨-, -, rfl⟩ := commitStates_ok_iff.mp h
  exact hs.written s.written.assessments

theorem LedgerKept.refl (hledger : d.Ledger) : LedgerKept d d :=
  ⟨hledger, rfl, fun i hi => ⟨i, hi, rfl, rfl, Nat.le_refl _⟩⟩

theorem processComparisonRun_ledger (hd : d.Constrained) (hledger : d.Ledger)
    {settings : MonitoringSettings} {workerId : String} {run : ComparisonRun}
    (hnext : nextPendingComparison d = some run)
    (h : processComparisonRun settings workerId d run = .ok d') : LedgerKept d d' := by
  obtain ⟨scan, hscan, -, hprocess⟩ :=
    processComparisonRun_scanned settings workerId hd.toWellFormed hnext
  rw [hprocess] at h
  cases hproject : projectHealth run (settings.clock 0) scan with
  | error e => simp [hproject, bind, Except.bind] at h
  | ok result =>
    obtain ⟨session, health⟩ := result
    simp only [hproject, bind, Except.bind] at h
    have hscanned : LedgerSession d scan.session := by
      refine forPages_kept (I := fun scan => LedgerSession d scan.session) (fun scan page scan' _ hpage hs =>
        scanPage_kept (I := fun scan => LedgerSession d scan.session) (fun scan scan' f _ hf hs => ?_)
          (fun scan expiry hs => hs.renewLease expiry) hpage hs) hscan (.start hledger)
      obtain ⟨c, session, hrecord, rfl⟩ := scanFinding_ok hf
      exact recordFinding_ledger hd hrecord hs
    have hsession : LedgerSession d session := by
      rcases projectHealth_session hproject with rfl | ⟨complete, rfl⟩
      · exact hscanned
      · exact hscanned.recordHealthyComparison hd complete _
    rw [commit_written h]
    exact (hsession.project health).written _

theorem severityRank_le_critical (severity : IncidentSeverity) :
    severityRank severity ≤ severityRank .critical := by
  cases severity <;> decide

theorem LedgerSession.recordActivationRuntimeFailure (hd : d.Constrained) (hs : LedgerSession d s)
    (activation : LiveStrategyActivation) {policy : Option MonitoringPolicy}
    (errorMessage runtimeStatus : Option String) {fallbackSeverity : Option IncidentSeverity} (now : ℤ)
    (hpolicy : ∀ p ∈ policy, p = d.binding.policy)
    (hfallback : policy = none → fallbackSeverity.getD .critical = .critical) :
    LedgerSession d (recordActivationRuntimeFailure activation policy errorMessage runtimeStatus
      fallbackSeverity now s) := by
  refine (hs.project _).recordState hd now rfl fun n hn => ?_
  show _ ≤ severityRank (runtimeSeverity policy fallbackSeverity n hn)
  cases hstored : policy with
  | none =>
    have hcritical := hfallback hstored
    unfold runtimeSeverity
    rw [hcritical]
    exact severityRank_le_critical _
  | some p =>
    rw [hpolicy p hstored]
    exact Nat.le_refl _

theorem LedgerSession.evaluateStaleness (hd : d.Constrained) (hs : LedgerSession d s)
    (activation : LiveStrategyActivation) (now : ℤ) :
    LedgerSession d (evaluateStaleness activation now s) := by
  unfold Monitoring.evaluateStaleness
  have hread := hs.project { s.db.health with lastEvaluatedAt := activation.lastEvaluatedAt }
  dsimp only
  split
  · refine (hread.recordState hd now rfl fun n hn => ?_).project _
    show severityRank (d.binding.policy.severityFor .runtime n hn) ≤
      severityRank (s.db.binding.policy.severityFor .runtime n hn)
    rw [hs.samePolicy]
  · have hrecovered := hread.recoverStale hd .staleStrategyState
      "Live evaluator resumed within the configured stale threshold." now
    split
    · exact hrecovered.project _
    · exact hrecovered

theorem LedgerSession.evaluateComparisonFreshness (hd : d.Constrained) (hs : LedgerSession d s)
    (now : ℤ) : LedgerSession d (evaluateComparisonFreshness now s) := by
  unfold Monitoring.evaluateComparisonFreshness
  dsimp only
  split
  · refine (hs.recordState hd now rfl fun n hn => ?_).project _
    show severityRank (d.binding.policy.severityFor .reference n hn) ≤
      severityRank (s.db.binding.policy.severityFor .reference n hn)
    rw [hs.samePolicy]
  · exact hs.recoverStale hd _ _ now

theorem unlessActive_ledger (hd : d.Constrained) (hledger : d.Ledger)
    {activation : LiveStrategyActivation} {now : ℤ} {act : Except MonitoringError MonitoringStore}
    (h : unlessActive activation now d act = .ok d') (hact : act = .ok d' → LedgerKept d d') :
    LedgerKept d d' := by
  rcases unlessActive_cases h with ⟨-, hcommit⟩ | ⟨-, hcommit⟩ | ⟨-, hact'⟩
  · refine ((LedgerSession.start hledger).recordActivationRuntimeFailure hd activation none none now
      ?_ ?_).commit hcommit
    · exact fun p hp => (Option.some.inj hp).symm
    · exact fun hnone => by cases hnone
  · exact ((LedgerSession.start hledger).project _).commit hcommit
  · exact hact hact'

theorem recordBindingError_ledger (hd : d.Constrained) (hledger : d.Ledger)
    {activation : LiveStrategyActivation} {validPolicy : Bool} {error : String} {now : ℤ}
    (h : recordBindingError activation (if validPolicy then some d.binding.policy else none) error now d =
      .ok d') : LedgerKept d d' := by
  refine (((LedgerSession.start hledger).project _).recordActivationRuntimeFailure hd activation _ _ now
    ?_ ?_).commit h
  · intro p hp
    cases validPolicy with
    | true => exact (Option.some.inj hp).symm
    | false => cases hp
  · intro hnone
    rw [hnone]
    rfl

/-- The call of an operator on a row. -/
theorem LedgerSession.operate (hd : d.Constrained) (hledger : d.Ledger) {incidentId : ℕ}
    {incident : Incident} (hfound : UnitOfWork.lockedIncident { db := d } incidentId = some incident)
    {changed : Incident} (hid : changed.id = incident.id) (hkey : changed.dedupKey = incident.dedupKey)
    (hseverity : changed.severity = incident.severity)
    (hbooked : incident.Booked d.binding.policy d.evidence → changed.Booked d.binding.policy d.evidence) :
    LedgerSession d (UnitOfWork.change { db := d } changed) := by
  obtain ⟨row, hrow, rfl⟩ := List.mem_map.mp (List.mem_of_mem_head? hfound)
  have hmem : row ∈ d.incidents := (List.mem_filter.mp hrow).1
  refine (LedgerSession.start hledger).change hd hmem hid hkey (hseverity ▸ Nat.le_refl _) ?_
  show changed.Booked _ (d.evidence ++ [])
  rw [List.append_nil]
  exact hbooked (hledger row hmem)

/-- What an operator's call commits: the rows as they are, or one row with another lifecycle. -/
theorem acknowledgeIncident_cases {incidentId : ℕ} {actor : String} {note : Option String}
    (h : acknowledgeIncident incidentId actor note d = .ok d') :
    UnitOfWork.commitStates { db := d } = .ok d' ∨ ∃ incident,
      UnitOfWork.lockedIncident { db := d } incidentId = some incident ∧ incident.status ≠ .resolved ∧
      (UnitOfWork.change { db := d } { incident with status := .acknowledged }).commitStates = .ok d' := by
  unfold acknowledgeIncident at h
  split at h
  · cases h
  · split at h
    · cases h
    · dsimp only at h
      cases hfound : UnitOfWork.lockedIncident { db := d } incidentId with
      | none =>
        rw [hfound] at h
        cases h
      | some incident =>
        rw [hfound] at h
        dsimp only at h
        split at h
        · cases h
        · rename_i hunresolved
          split at h
          · exact .inr ⟨incident, rfl, hunresolved, h⟩
          · exact .inl h

theorem resolveIncidentBy_cases {incidentId : ℕ} {actor : String} {note : Option String} {now : ℤ}
    (h : resolveIncidentBy incidentId actor note now d = .ok d') :
    UnitOfWork.commitStates { db := d } = .ok d' ∨ ∃ incident,
      UnitOfWork.lockedIncident { db := d } incidentId = some incident ∧
      (UnitOfWork.change { db := d } { incident with
        status := .resolved, resolvedAt := some now, resolvedBy := some (strip actor)
        resolutionNote := note }).commitStates = .ok d' := by
  unfold resolveIncidentBy at h
  split at h
  · cases h
  · split at h
    · cases h
    · dsimp only at h
      cases hfound : UnitOfWork.lockedIncident { db := d } incidentId with
      | none =>
        rw [hfound] at h
        cases h
      | some incident =>
        rw [hfound] at h
        dsimp only at h
        split at h
        · exact .inr ⟨incident, rfl, h⟩
        · exact .inl h

theorem MonitoringCall.execute_ledger (hd : d.Constrained) (hledger : d.Ledger) {c : MonitoringCall}
    (h : c.execute d = .ok d') : LedgerKept d d' := by
  cases c with
  | compare settings workerId activation now =>
    refine unlessActive_ledger hd hledger h fun hact => ?_
    cases hnext : nextPendingComparison d with
    | none =>
      rw [hnext] at hact
      cases hact
      exact .refl hledger
    | some run =>
      rw [hnext] at hact
      exact processComparisonRun_ledger hd hledger hnext hact
  | finalize activation now now' =>
    refine unlessActive_ledger hd hledger h fun hact => ?_
    exact (((LedgerSession.start hledger).evaluateComparisonFreshness hd now).evaluateStaleness hd
      activation now').commit hact
  | fail activation validPolicy error now => exact recordBindingError_ledger hd hledger h
  | renew leaseExpiresAt =>
    cases h
    exact ⟨hledger, rfl, fun i hi => ⟨i, hi, rfl, rfl, Nat.le_refl _⟩⟩
  | acknowledge incidentId actor note =>
    rcases acknowledgeIncident_cases h with hsame | ⟨incident, hfound, hunresolved, hcommit⟩
    · exact (LedgerSession.start hledger).commit hsame
    · refine LedgerSession.commit ?_ hcommit
      refine LedgerSession.operate hd hledger hfound rfl rfl rfl fun hb =>
        ⟨hb.counted, hb.severe, ?_, hb.label⟩
      have hnone : ¬ incident.resolvedAt.isSome := fun hs => hunresolved (hb.resolved.mpr hs)
      exact iff_of_false (by simp) hnone
  | resolve incidentId actor note now =>
    rcases resolveIncidentBy_cases h with hsame | ⟨incident, hfound, hcommit⟩
    · exact (LedgerSession.start hledger).commit hsame
    · refine LedgerSession.commit ?_ hcommit
      exact LedgerSession.operate hd hledger hfound rfl rfl rfl fun hb =>
        ⟨hb.counted, hb.severe, iff_of_true rfl rfl, hb.label⟩

end

/-! ### Links -/

/-- A transaction that assesses no run. -/
structure LinksKept (d d' : MonitoringStore) : Prop where
  constrained : d'.Constrained
  links : d'.linkedFindings = d.linkedFindings
  findings : d'.findings = d.findings
  assessed : d'.assessed = d.assessed

/-- A transaction that assesses a run. -/
structure LinksRun (d : MonitoringStore) (run : ComparisonRun) (d' : MonitoringStore) : Prop where
  constrained : d'.Constrained
  pending : run.runId ∉ d.assessed
  links : d'.linkedFindings = d.linkedFindings ++ (d.findingsOf run.runId).map Finding.id
  findings : d'.findings = d.findings
  assessed : d'.assessed = d.assessed ++ [run.runId]

section
variable {d d' : MonitoringStore} {s : UnitOfWork}

theorem LinksKept.refl (hd : d.Constrained) : LinksKept d d := ⟨hd, rfl, rfl, rfl⟩

theorem StateSession.links (hd : d.Constrained) (hs : StateSession d s) (h : s.commitStates = .ok d') :
    LinksKept d d' := by
  have hconstrained := (hs.commit hd h).constrained
  obtain ⟨-, -, rfl⟩ := commitStates_ok_iff.mp h
  have hnone : s.addedEvidence.filterMap IncidentEvidence.findingId = [] :=
    List.filterMap_eq_nil_iff.mpr fun e he => (hs.evidence e he).1
  refine ⟨hconstrained, ?_, hs.rows.findings,
    congrArg (List.map MonitoringAssessment.comparisonRunId) hs.rows.assessments⟩
  show (s.db.evidence ++ s.addedEvidence).filterMap IncidentEvidence.findingId = _
  rw [List.filterMap_append, hnone, List.append_nil, hs.rows.evidence]
  rfl

theorem processComparisonRun_links (hd : d.Constrained) {settings : MonitoringSettings}
    {workerId : String} {run : ComparisonRun} (hnext : nextPendingComparison d = some run)
    (h : processComparisonRun settings workerId d run = .ok d') : LinksRun d run d' := by
  have hconstrained := (processComparisonRun_effect hd hnext h).constrained
  obtain ⟨-, -, -, hpending⟩ := nextPendingComparison_spec hnext
  obtain ⟨scan, -, hscanned, hprocess⟩ :=
    processComparisonRun_scanned settings workerId hd.toWellFormed hnext
  have hfits : run.Fits (d.findingsOf run.runId) := by
    by_contra hbad
    obtain ⟨e, he⟩ := processComparisonRun_fails settings workerId hd.toWellFormed hnext
      fun hgood => hbad hgood.2
    rw [h] at he
    cases he
  obtain ⟨session, health, hproject, hcounted, hlinked⟩ :=
    projectHealth_of_fits hd.toWellFormed hscanned hfits (settings.clock 0)
  rw [hprocess, hproject] at h
  have hwritten := commit_written h
  subst hwritten
  refine ⟨hconstrained, hpending, ?_, hcounted.rows.findings, ?_⟩
  · show (session.db.evidence ++ session.addedEvidence).filterMap IncidentEvidence.findingId = _
    rw [List.filterMap_append, hlinked.filterMap, hcounted.rows.evidence]
    rfl
  · show (session.db.assessments ++ [_]).map MonitoringAssessment.comparisonRunId = _
    rw [hcounted.rows.assessments, List.map_append]
    rfl

/-- An operator changes the lifecycle of a row. -/
theorem operate_links (hd : d.Constrained) {incidentId : ℕ} {incident changed : Incident}
    (hfound : UnitOfWork.lockedIncident { db := d } incidentId = some incident)
    (hid : changed.id = incident.id) (hkey : changed.dedupKey = incident.dedupKey)
    (htype : changed.type = incident.type)
    (h : (UnitOfWork.change { db := d } changed).commitStates = .ok d') : LinksKept d d' := by
  obtain ⟨row, hrow, rfl⟩ := List.mem_map.mp (List.mem_of_mem_head? hfound)
  have hmem : row ∈ d.incidents := (List.mem_filter.mp hrow).1
  have hs := FindingSession.start.change hd hmem hid hkey htype
  obtain ⟨hkeys, -, rfl⟩ := commitStates_ok_iff.mp h
  have hevidence : (UnitOfWork.change { db := d } changed).written.evidence = d.evidence :=
    List.append_nil d.evidence
  have hincidents : (UnitOfWork.change { db := d } changed).written.incidents =
      d.incidents.map (UnitOfWork.change { db := d } changed).object := List.append_nil _
  have hids : (UnitOfWork.change { db := d } changed).written.incidents.map Incident.id =
      d.incidents.map Incident.id := by
    rw [hincidents, List.map_map]
    exact List.map_congr_left fun i hi => (hs.held i hi).1
  have hwell : (UnitOfWork.change { db := d } changed).written.WellFormed := by
    refine ⟨hkeys, hids ▸ hd.ids, fun i hi => ?_, hd.findings, hevidence ▸ hd.evidence,
      hevidence ▸ hd.evidenceKeys, hevidence ▸ hd.keyed, hd.assessments, hevidence ▸ hd.assessed⟩
    rw [hincidents] at hi
    obtain ⟨held, hheld, rfl⟩ := List.mem_map.mp hi
    rw [(hs.held held hheld).1]
    exact hd.drawn held hheld
  refine ⟨?_, ?_, rfl, rfl⟩
  · exact @FindingSession.constrained d _ d.assessments hd hs hwell
  · exact congrArg (List.filterMap IncidentEvidence.findingId) hevidence

theorem MonitoringCall.execute_links (hd : d.Constrained) {c : MonitoringCall}
    (h : c.execute d = .ok d') : LinksKept d d' ∨ ∃ run, LinksRun d run d' := by
  cases c with
  | compare settings workerId activation now =>
    rcases unlessActive_session hd h with ⟨-, s, hs, hcommit⟩ | ⟨-, hact⟩
    · exact .inl (hs.links hd hcommit)
    · cases hnext : nextPendingComparison d with
      | none =>
        rw [hnext] at hact
        cases hact
        exact .inl (.refl hd)
      | some run =>
        rw [hnext] at hact
        exact .inr ⟨run, processComparisonRun_links hd hnext hact⟩
  | finalize activation now now' =>
    obtain ⟨s, hs, hcommit⟩ := finalizeBindingCycle_session hd h
    exact .inl (hs.links hd hcommit)
  | fail activation validPolicy error now =>
    obtain ⟨s, hs, hcommit⟩ := recordBindingError_session hd h
    exact .inl (hs.links hd hcommit)
  | renew leaseExpiresAt =>
    cases h
    exact .inl ⟨⟨⟨hd.keys, hd.ids, hd.drawn, hd.findings, hd.evidence, hd.evidenceKeys, hd.keyed,
      hd.assessments, hd.assessed⟩, hd.linked, hd.kinds⟩, rfl, rfl, rfl⟩
  | acknowledge incidentId actor note =>
    rcases acknowledgeIncident_cases h with hsame | ⟨incident, hfound, -, hcommit⟩
    · exact .inl (StateSession.start.links hd hsame)
    · refine .inl (operate_links hd hfound ?_ ?_ ?_ hcommit) <;> rfl
  | resolve incidentId actor note now =>
    rcases resolveIncidentBy_cases h with hsame | ⟨incident, hfound, hcommit⟩
    · exact .inl (StateSession.start.links hd hsame)
    · refine .inl (operate_links hd hfound ?_ ?_ ?_ hcommit) <;> rfl

end

/-! ### Runs -/

/-- What holds of the tables in every reachable state. -/
structure MonitoringTables.Kept (t : MonitoringTables) : Prop where
  constrained : t.store.Constrained
  ledger : t.store.Ledger
  separate : t.Separate

section
variable {admitted : MonitoringStore → MonitoringCall → Prop} {t t' : MonitoringTables}

theorem MonitoringTables.Registered.kept (h : t.Registered) : t.Kept where
  constrained := ⟨h.wellFormed, by simp [h.evidence], by simp [h.incidents]⟩
  ledger i hi := by
    rw [h.incidents] at hi
    cases hi
  separate := h.separate

theorem MonitoringTables.Separate.call {d : MonitoringStore} {c : MonitoringCall} (ht : t.Kept)
    (h : c.execute t.store = .ok d) :
    d.Constrained ∧ MonitoringTables.Separate { t with store := d } := by
  have hlinks := ht.separate.links
  rcases c.execute_links ht.constrained h with hkept | ⟨run, hrun⟩
  · refine ⟨hkept.constrained, ?_, fun id hid => ?_⟩
    · show (d.linkedFindings ++ t.linkedElsewhere).Nodup
      rw [hkept.links]
      exact hlinks
    · obtain ⟨f, hf, hid', hassessed⟩ := ht.separate.assessed id hid
      exact ⟨f, hkept.findings ▸ hf, hid', hkept.assessed ▸ hassessed⟩
  · have hown : d.linkedFindings.Nodup := hrun.constrained.evidence
    refine ⟨hrun.constrained, ?_, fun id hid => ?_⟩
    · show (d.linkedFindings ++ t.linkedElsewhere).Nodup
      rw [List.nodup_append] at hlinks ⊢
      refine ⟨hown, hlinks.2.1, fun id hid id' hid' heq => ?_⟩
      rw [hrun.links] at hid
      rcases List.mem_append.mp hid with hold | hnew
      · exact hlinks.2.2 id hold id' hid' heq
      · -- A finding of the run would belong to a run that was assessed before.
        obtain ⟨f, hf, rfl⟩ := List.mem_map.mp hnew
        obtain ⟨hmem, hbelongs⟩ := MonitoringStore.mem_findingsOf.mp hf
        obtain ⟨g, hg, hsame, hassessed⟩ := ht.separate.assessed id' hid'
        have hfg : g = f :=
          List.inj_on_of_nodup_map ht.constrained.findings hg hmem (hsame.trans heq.symm)
        rw [hfg, hbelongs] at hassessed
        exact hrun.pending hassessed
    · obtain ⟨f, hf, hid', hassessed⟩ := ht.separate.assessed id hid
      refine ⟨f, hrun.findings ▸ hf, hid', ?_⟩
      show f.comparisonRunId ∈ d.assessed
      rw [hrun.assessed]
      exact List.mem_append_left _ hassessed

theorem TablesStep.kept (ht : t.Kept) (h : TablesStep admitted t t') :
    t'.Kept ∧ LedgerKept t.store t'.store := by
  cases h with
  | call c h ha =>
    have hledger := c.execute_ledger ht.constrained ht.ledger h
    obtain ⟨hconstrained, hseparate⟩ := MonitoringTables.Separate.call ht h
    exact ⟨⟨hconstrained, hledger.ledger, hseparate⟩, hledger⟩
  | @arrive run findings h hnew =>
    refine ⟨⟨Constrained.arrived ht.constrained h, ht.ledger, ht.separate.links, fun id hid => ?_⟩,
      ⟨ht.ledger, rfl, fun i hi => ⟨i, hi, rfl, rfl, Nat.le_refl _⟩⟩⟩
    obtain ⟨f, hf, hid', hassessed⟩ := ht.separate.assessed id hid
    exact ⟨f, List.mem_append_left _ hf, hid', hassessed⟩
  | @assess a h =>
    have hd := ht.constrained
    have hmore : (t.store.assessments ++ [a]).map MonitoringAssessment.comparisonRunId =
        t.store.assessed ++ [a.comparisonRunId] := List.map_append
    refine ⟨⟨⟨⟨hd.keys, hd.ids, hd.drawn, hd.findings, hd.evidence, hd.evidenceKeys, hd.keyed,
      commit_assessments hd.toWellFormed h, fun e he f hf hlink => ?_⟩, hd.linked, hd.kinds⟩,
      ht.ledger, ?_, fun id hid => ?_⟩, ⟨ht.ledger, rfl, fun i hi => ⟨i, hi, rfl, rfl, Nat.le_refl _⟩⟩⟩
    · rw [hmore]
      exact List.mem_append_left _ (hd.assessed e he f hf hlink)
    · show (t.store.linkedFindings ++ (t.linkedElsewhere ++
        (t.store.findingsOf a.comparisonRunId).map Finding.id)).Nodup
      rw [← List.append_assoc, List.nodup_append]
      refine ⟨ht.separate.links, hd.toWellFormed.findingsOf_ids _, fun id hid id' hid' heq => ?_⟩
      obtain ⟨f, hf, rfl⟩ := List.mem_map.mp hid'
      obtain ⟨hmem, hbelongs⟩ := MonitoringStore.mem_findingsOf.mp hf
      refine h (hbelongs ▸ ?_)
      rcases List.mem_append.mp hid with hown | helse
      · obtain ⟨e, he, hlink⟩ := List.mem_filterMap.mp hown
        exact hd.assessed e he f hmem (hlink.trans (congrArg some heq))
      · obtain ⟨g, hg, hsame, hassessed⟩ := ht.separate.assessed id helse
        have hfg : g = f := List.inj_on_of_nodup_map hd.findings hg hmem (hsame.trans heq)
        exact hfg ▸ hassessed
    · show ∃ f ∈ t.store.findings, f.id = id ∧ f.comparisonRunId ∈
        (t.store.assessments ++ [a]).map MonitoringAssessment.comparisonRunId
      rw [hmore]
      rcases List.mem_append.mp hid with hid | hid
      · obtain ⟨f, hf, hid', hassessed⟩ := ht.separate.assessed id hid
        exact ⟨f, hf, hid', List.mem_append_left _ hassessed⟩
      · obtain ⟨f, hf, rfl⟩ := List.mem_map.mp hid
        obtain ⟨hmem, hbelongs⟩ := MonitoringStore.mem_findingsOf.mp hf
        exact ⟨f, hmem, rfl, by simp [hbelongs]⟩

theorem MonitoringTables.Kept.run (ht : t.Kept) (h : Relation.ReflTransGen (TablesStep admitted) t t') :
    t'.Kept ∧ ∀ i ∈ t.store.incidents, ∃ i' ∈ t'.store.incidents, i'.id = i.id ∧
      i'.dedupKey = i.dedupKey ∧ severityRank i.severity ≤ severityRank i'.severity := by
  induction h with
  | refl => exact ⟨ht, fun i hi => ⟨i, hi, rfl, rfl, Nat.le_refl _⟩⟩
  | tail _ hstep ih =>
    obtain ⟨hkept, hrows⟩ := ih
    obtain ⟨hkept', hledger⟩ := hstep.kept hkept
    refine ⟨hkept', fun i hi => ?_⟩
    obtain ⟨j, hj, hid, hkey, hseverity⟩ := hrows i hi
    obtain ⟨k, hk, hid', hkey', hseverity'⟩ := hledger.incidents j hj
    exact ⟨k, hk, hid'.trans hid, hkey'.trans hkey, hseverity.trans hseverity'⟩

end

/-- In every reachable state each incident is booked on its evidence, each finding is linked once, and
no incident loses severity later. -/
theorem incidents_booked {t₀ t t' : MonitoringTables} (h₀ : t₀.Registered)
    (hrun : Relation.ReflTransGen (TablesStep fun _ _ => True) t₀ t)
    (hlater : Relation.ReflTransGen (TablesStep fun _ _ => True) t t') :
    (∀ i ∈ t.store.incidents, i.Booked t.store.binding.policy t.store.evidence) ∧
    (t.store.linkedFindings ++ t.linkedElsewhere).Nodup ∧
    ∀ i ∈ t.store.incidents, (∃ i' ∈ t'.store.incidents, i'.id = i.id) ∧
      ∀ i' ∈ t'.store.incidents, i'.id = i.id → severityRank i.severity ≤ severityRank i'.severity := by
  obtain ⟨hkept, -⟩ := h₀.kept.run hrun
  obtain ⟨hkept', hrows⟩ := hkept.run hlater
  refine ⟨hkept.ledger, hkept.separate.links, fun i hi => ?_⟩
  obtain ⟨i', hi', hid, -, hseverity⟩ := hrows i hi
  refine ⟨⟨i', hi', hid⟩, fun j hj hsame => ?_⟩
  obtain rfl : j = i' :=
    List.inj_on_of_nodup_map hkept'.constrained.ids hj hi' (hsame.trans hid.symm)
  exact hseverity

/-- The store after a call; as it was when the call raises. -/
def MonitoringCall.after (c : MonitoringCall) (d : MonitoringStore) : MonitoringStore :=
  match c.execute d with
  | .ok d' => d'
  | .error _ => d

theorem TablesStep.after {admitted : MonitoringStore → MonitoringCall → Prop} {c : MonitoringCall}
    {d : MonitoringStore} (h : (c.execute d).isOk) (ha : admitted d c) :
    TablesStep admitted { store := d } { store := c.after d } := by
  unfold MonitoringCall.after
  cases hexecute : c.execute d with
  | error e =>
    rw [hexecute] at h
    cases h
  | ok d' => exact .call c hexecute ha

/-- An error of the monitor, which an operator acknowledges and then resolves. -/
def failedStore : MonitoringStore := MonitoringCall.after (.fail running true "boom" 1) unfailed

def acknowledgedStore : MonitoringStore := MonitoringCall.after (.acknowledge 1 "ops" none) failedStore

def resolvedStore : MonitoringStore :=
  MonitoringCall.after (.resolve 1 "ops" (some "fixed") 2) acknowledgedStore

theorem incidents_booked_resolved :
    resolvedStore.incidents.map (fun i => (i.status, i.resolvedAt)) = [(.resolved, some 2)] ∧
    (∀ i ∈ acknowledgedStore.incidents,
      i.Booked acknowledgedStore.binding.policy acknowledgedStore.evidence) ∧
    (acknowledgedStore.linkedFindings ++ []).Nodup ∧
    ∀ i ∈ acknowledgedStore.incidents, (∃ i' ∈ resolvedStore.incidents, i'.id = i.id) ∧
      ∀ i' ∈ resolvedStore.incidents, i'.id = i.id → severityRank i.severity ≤ severityRank i'.severity := by
  have hregistered : MonitoringTables.Registered { store := unfailed } :=
    ⟨unfailed_constrained.toWellFormed, rfl, rfl, ⟨List.nodup_nil, by simp⟩⟩
  have hfail : TablesStep (fun _ _ => True) { store := unfailed } { store := failedStore } :=
    .after (by decide +kernel) trivial
  have hacknowledge : TablesStep (fun _ _ => True) { store := failedStore } { store := acknowledgedStore } :=
    .after (by decide +kernel) trivial
  have hresolve : TablesStep (fun _ _ => True) { store := acknowledgedStore } { store := resolvedStore } :=
    .after (by decide +kernel) trivial
  exact ⟨by decide +kernel, incidents_booked hregistered
    ((Relation.ReflTransGen.single hfail).tail hacknowledge) (.single hresolve)⟩

end Quantive.Monitoring
