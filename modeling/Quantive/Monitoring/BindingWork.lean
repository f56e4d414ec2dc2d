import Quantive.Monitoring.Sessions

/-!
# Work on a claimed binding

What the sessions on the monitoring tables rely on while others run, and what a transaction on a
claimed binding knows of the tables between two of its statements: it holds the binding under its
claim, has locked the incidents it changes, and counts the evidence it adds.
-/

namespace Quantive.Monitoring
open Quantive.ReadCommitted Prog Protocol

namespace MonitoringDatabase

/-! ### The protocol -/

section
variable (d : MonitoringDatabase)

def Ran (runId : String) : Prop := ∃ run ∈ d.runs, run.runId = runId

def reported (runId : String) : List Finding := d.findings.filter fun f => f.comparisonRunId = runId

def Assessed (runId : String) : Prop := ∃ a ∈ d.assessments, a.comparisonRunId = runId

/-- The finding has an evidence row. -/
def Evident (findingId : ℕ) : Prop := ∃ e ∈ d.evidence, e.findingId = some findingId

def occurrences (incidentId : ℕ) : ℕ := d.evidence.countP fun e => e.incidentId = incidentId

/-- A drawn name is neither a finding nor a binding, nor the first of its two uuids an incident. -/
structure Unused (n : ℕ) : Prop where
  findings : ∀ f ∈ d.findings, f.id ≠ n
  incidents : ∀ i ∈ d.incidents, i.id ≠ 2 * n
  bindings : d.binding n = none

structure Consistent : Prop where
  keyed : ∀ id row, d.binding id = some row → row.binding.id = id
  ids : (d.incidents.map Incident.id).Nodup
  findings : (d.findings.map Finding.id).Nodup
  reported : ∀ f ∈ d.findings, d.Ran f.comparisonRunId
  assessments : (d.assessments.map MonitoringAssessment.comparisonRunId).Nodup
  compared : ∀ runId, d.Assessed runId → d.Ran runId
  links : (d.evidence.filterMap IncidentEvidence.findingId).Nodup
  /-- The findings of an assessed run have evidence, those of another run have none. -/
  evident : ∀ f ∈ d.findings, d.Evident f.id ↔ d.Assessed f.comparisonRunId
  found : ∀ id, d.Evident id → ∃ f ∈ d.findings, f.id = id
  targets : ∀ e ∈ d.evidence, ∃ i ∈ d.incidents, i.id = e.incidentId
  counted : ∀ i ∈ d.incidents, i.occurrenceCount = d.occurrences i.id

/-- What the others may do while a session holds some locks and has drawn some names. -/
structure Others (held : List MonitoringLock) (owned : List ℕ) (d d' : MonitoringDatabase) : Prop where
  runs : ∀ runId, d.Ran runId → d'.Ran runId ∧ d'.reported runId = d.reported runId
  findings : ∀ f ∈ d.findings, f ∈ d'.findings
  evidence : ∀ e ∈ d.evidence, e ∈ d'.evidence
  binding : ∀ id, .binding id ∈ held → ∀ row, d.binding id = some row → d'.binding id = some row
  incident : ∀ id, .incident id ∈ held → ∀ row ∈ d.incidents, row.id = id →
    row ∈ d'.incidents ∧ d'.occurrences id = d.occurrences id
  finding : ∀ id, .findingEvidence id ∈ held → d'.Evident id → d.Evident id
  assessment : ∀ runId, .assessment runId ∈ held → d'.Assessed runId → d.Assessed runId
  run : ∀ runId, .run runId ∈ held → d'.Ran runId → d.Ran runId
  names : ∀ n ∈ owned, d.Unused n → d'.Unused n

/-- The commit of a worker that holds its binding under the current claim. -/
structure Fenced (claim : BindingClaim) (held : List MonitoringLock) (d d' : MonitoringDatabase) : Prop where
  noted : d'.history = d.history ++ [claim]
  lock : .binding claim.bindingId ∈ held
  current : ∃ row, d.binding claim.bindingId = some row ∧ row.status = .active ∧ claim.holds row = true
  evidence : ∀ e ∈ d.evidence, e ∈ d'.evidence
  assessments : ∀ a ∈ d.assessments, a ∈ d'.assessments
  worker : ∀ a ∈ d'.assessments, a ∈ d.assessments ∨ a.processorWorkerId = claim.workerId

/-- Any other commit leaves the evidence, the assessments and the counts of the incidents alone. -/
def Booked (held : List MonitoringLock) (d d' : MonitoringDatabase) : Prop :=
  (d'.assessments = d.assessments ∧ d'.evidence = d.evidence ∧
    ∀ i ∈ d'.incidents, ∃ row ∈ d.incidents, row.id = i.id ∧ row.occurrenceCount = i.occurrenceCount) ∨
  ∃ claim, Fenced claim held d d'

end

section
variable {d d' d'' : MonitoringDatabase} {held : List MonitoringLock} {owned : List ℕ}

theorem Others.refl : Others held owned d d where
  runs _ h := ⟨h, rfl⟩
  findings _ h := h
  evidence _ h := h
  binding _ _ _ h := h
  incident _ _ _ h _ := ⟨h, rfl⟩
  finding _ _ h := h
  assessment _ _ h := h
  run _ _ h := h
  names _ _ h := h

theorem Others.trans (h : Others held owned d d') (h' : Others held owned d' d'') : Others held owned d d'' where
  runs runId hran := by
    obtain ⟨hran', hsame⟩ := h.runs runId hran
    obtain ⟨hran'', hsame'⟩ := h'.runs runId hran'
    exact ⟨hran'', hsame'.trans hsame⟩
  findings f hf := h'.findings f (h.findings f hf)
  evidence e he := h'.evidence e (h.evidence e he)
  binding id hid row hrow := h'.binding id hid row (h.binding id hid row hrow)
  incident id hid row hrow hrowId := by
    obtain ⟨hrow', hcount⟩ := h.incident id hid row hrow hrowId
    obtain ⟨hrow'', hcount'⟩ := h'.incident id hid row hrow' hrowId
    exact ⟨hrow'', hcount'.trans hcount⟩
  finding id hid he := h.finding id hid (h'.finding id hid he)
  assessment runId hid ha := h.assessment runId hid (h'.assessment runId hid ha)
  run runId hid hr := h.run runId hid (h'.run runId hid hr)
  names n hn hu := h'.names n hn (h.names n hn hu)

end
end MonitoringDatabase
open MonitoringDatabase

def ledger : Protocol MonitoringParty MonitoringDatabase MonitoringLock where
  Inv := Consistent
  Rely _ := Others
  Unused n d := d.Unused n
  Commit _ held _ := Booked held
  rely_refl _ _ _ _ := .refl
  rely_trans _ _ _ _ _ _ h h' := h.trans h'
  commit_refl _ _ _ _ := .inl ⟨rfl, rfl, fun i hi => ⟨i, hi, rfl, rfl⟩⟩

/-! ### Commits without evidence -/

variable {i : MonitoringParty} {c : Ctx MonitoringWrite MonitoringLock} {d d' : MonitoringDatabase}

/-- The transaction may commit, whatever the others have done by then. -/
def Committable (i : MonitoringParty) (c : Ctx MonitoringWrite MonitoringLock) (d : MonitoringDatabase) :
    Prop :=
  ∀ d', ledger.Env i c d d' → ledger.Guar i c d' (c.view d')

/-- A write of no consequence for the ledger: a row of a binding that the session has locked or named
itself, an activation or a health row. -/
def QuietWrite (c : Ctx MonitoringWrite MonitoringLock) (d : MonitoringDatabase) : MonitoringWrite → Prop
  | .putBinding row => (.binding row.binding.id ∈ c.held ∧ ∃ old, d.binding row.binding.id = some old) ∨
      row.binding.id ∈ c.owned ∧ d.Unused row.binding.id
  | .putActivation _ _ => True
  | .putHealth _ _ => True
  | _ => False

/-- What quiet writes leave alone. -/
structure QuietChange (c : Ctx MonitoringWrite MonitoringLock) (d d' : MonitoringDatabase) : Prop where
  runs : d'.runs = d.runs
  findings : d'.findings = d.findings
  incidents : d'.incidents = d.incidents
  evidence : d'.evidence = d.evidence
  assessments : d'.assessments = d.assessments
  history : d'.history = d.history
  bindings : ∀ id, d'.binding id = d.binding id ∨
    (∃ row, d'.binding id = some row ∧ row.binding.id = id) ∧
      ((.binding id ∈ c.held ∧ ∃ old, d.binding id = some old) ∨ id ∈ c.owned ∧ d.Unused id)

theorem QuietChange.write {d₀ : MonitoringDatabase} {x : MonitoringWrite} (h : QuietChange c d₀ d)
    (hx : QuietWrite c d₀ x) : QuietChange c d₀ (Store.apply x d) := by
  cases x with
  | putBinding row =>
    refine ⟨h.runs, h.findings, h.incidents, h.evidence, h.assessments, h.history, fun id => ?_⟩
    change (d.bindings.insert row.binding.id row).lookup id = _ ∨ _
    by_cases hid : id = row.binding.id
    · subst hid
      exact .inr ⟨⟨row, AList.lookup_insert _, rfl⟩, hx⟩
    · have hsame : (d.bindings.insert row.binding.id row).lookup id = d.binding id :=
        AList.lookup_insert_ne hid
      have hbefore := h.bindings id
      rw [← hsame] at hbefore
      exact hbefore
  | putActivation id activation =>
    exact ⟨h.runs, h.findings, h.incidents, h.evidence, h.assessments, h.history, h.bindings⟩
  | putHealth id row =>
    exact ⟨h.runs, h.findings, h.incidents, h.evidence, h.assessments, h.history, h.bindings⟩
  | _ => exact hx.elim

theorem quietChange_foldl (log : List MonitoringWrite) (h : ∀ x ∈ log, QuietWrite c d x) :
    QuietChange c d (log.foldl (fun d x => Store.apply x d) d) := by
  induction log using List.reverseRecOn with
  | nil => exact ⟨rfl, rfl, rfl, rfl, rfl, rfl, fun id => .inl rfl⟩
  | append_singleton log x ih =>
    rw [List.foldl_append]
    exact (ih fun y hy => h y (List.mem_append_left _ hy)).write
      (h x (List.mem_append_right _ List.mem_cons_self))

theorem QuietChange.guar (h : QuietChange c d d') (hd : d.Consistent) : ledger.Guar i c d d' := by
  have hran : d'.Ran = d.Ran := by
    unfold Ran
    rw [h.runs]
  have hreported : d'.reported = d.reported := by
    unfold reported
    rw [h.findings]
  have hassessed : d'.Assessed = d.Assessed := by
    unfold Assessed
    rw [h.assessments]
  have hevident : d'.Evident = d.Evident := by
    unfold Evident
    rw [h.evidence]
  have hoccurrences : d'.occurrences = d.occurrences := by
    unfold occurrences
    rw [h.evidence]
  have hunused : ∀ n, n ∉ c.owned → d.Unused n → d'.Unused n := by
    intro n hn hu
    refine ⟨h.findings ▸ hu.findings, h.incidents ▸ hu.incidents, ?_⟩
    rcases h.bindings n with hsame | ⟨-, ⟨-, old, hold⟩ | ⟨howned, -⟩⟩
    · rw [hsame]
      exact hu.bindings
    · rw [hu.bindings] at hold
      cases hold
    · exact absurd howned hn
  refine ⟨?_, fun j _ held owned hheld howned => ?_, hunused, ?_⟩
  · constructor
    · intro id row hrow
      rcases h.bindings id with hsame | ⟨⟨row', hrow', hid⟩, -⟩
      · exact hd.keyed id row (hsame ▸ hrow)
      · rw [hrow'] at hrow
        exact Option.some.inj hrow ▸ hid
    · rw [h.incidents]
      exact hd.ids
    · rw [h.findings]
      exact hd.findings
    · rw [h.findings, hran]
      exact hd.reported
    · rw [h.assessments]
      exact hd.assessments
    · rw [hassessed, hran]
      exact hd.compared
    · rw [h.evidence]
      exact hd.links
    · rw [h.findings, hevident, hassessed]
      exact hd.evident
    · rw [h.findings, hevident]
      exact hd.found
    · rw [h.evidence, h.incidents]
      exact hd.targets
    · rw [h.incidents, hoccurrences]
      exact hd.counted
  · constructor
    · rw [hran, hreported]
      exact fun runId hr => ⟨hr, rfl⟩
    · rw [h.findings]
      exact fun f hf => hf
    · rw [h.evidence]
      exact fun e he => he
    · intro id hid row hrow
      rcases h.bindings id with hsame | ⟨-, ⟨hlock, -⟩ | ⟨-, hu⟩⟩
      · rw [hsame]
        exact hrow
      · exact absurd hlock (hheld _ hid)
      · rw [hu.bindings] at hrow
        cases hrow
    · rw [h.incidents, hoccurrences]
      exact fun id _ row hrow _ => ⟨hrow, rfl⟩
    · rw [hevident]
      exact fun id _ he => he
    · rw [hassessed]
      exact fun runId _ ha => ha
    · rw [hran]
      exact fun runId _ hr => hr
    · exact fun n hn => hunused n (howned n hn)
  · refine .inl ⟨h.assessments, h.evidence, ?_⟩
    rw [h.incidents]
    exact fun row hrow => ⟨row, hrow, rfl, rfl⟩

/-- A transaction that has written nothing of consequence so far. -/
def Quiet (c : Ctx MonitoringWrite MonitoringLock) (d : MonitoringDatabase) : Prop :=
  d.Consistent ∧ ∀ x ∈ c.log, QuietWrite c d x

theorem QuietWrite.mono {c' : Ctx MonitoringWrite MonitoringLock} {x : MonitoringWrite}
    (h : QuietWrite c d x) (hheld : ∀ l ∈ c.held, l ∈ c'.held) (howned : ∀ n ∈ c.owned, n ∈ c'.owned)
    (hd : d.Others c.held c.owned d') : QuietWrite c' d' x := by
  cases x with
  | putBinding row =>
    rcases h with ⟨hlock, old, hold⟩ | ⟨hname, hu⟩
    · exact .inl ⟨hheld _ hlock, old, hd.binding _ hlock old hold⟩
    · exact .inr ⟨howned _ hname, hd.names _ hname hu⟩
  | putActivation id activation => trivial
  | putHealth id row => trivial
  | _ => exact h.elim

theorem quiet_inv : ledger.SessionInv i Quiet where
  stable c d d' h he := ⟨he.2, fun x hx => (h.2 x hx).mono (fun _ h => h) (fun _ h => h) he.1⟩
  hold c d l h := ⟨h.1, fun x hx => (h.2 x hx).mono (fun _ h => List.mem_cons_of_mem _ h)
    (fun _ h => h) .refl⟩
  own c d n h _ _ := ⟨h.1, fun x hx => (h.2 x hx).mono (fun _ h => h)
    (fun _ h => List.mem_cons_of_mem _ h) .refl⟩
  commit c d h := by
    have hguar := (quietChange_foldl c.log h.2).guar (i := i) h.1
    exact ⟨hguar, hguar.inv, fun x hx => by cases hx⟩
  rollback c d h := ⟨h.1, fun x hx => by cases hx⟩

theorem Quiet.committable (h : Quiet c d) : Committable i c d := by
  intro d' he
  exact (quiet_inv.commit c d' (quiet_inv.stable c d d' h he)).1

/-- Between transactions. -/
def Idle (c : Ctx MonitoringWrite MonitoringLock) (d : MonitoringDatabase) : Prop :=
  d.Consistent ∧ c.log = []

theorem Idle.quiet (h : Idle c d) : Quiet c d :=
  ⟨h.1, fun x hx => by rw [h.2] at hx; cases hx⟩

theorem idle_stable (h : Idle c d) (he : ledger.Env i c d d') : Idle c d' := ⟨he.2, h.2⟩

variable {O : (q : MonitoringQuestion) → MonitoringAnswer q → Prop} {α : Type}

/-- Every transaction of the service, whatever its body leaves behind when it raises. -/
theorem triple_inTransaction {body : MonitoringTask α}
    (h : ledger.Triple O i (fun _ _ => True) Idle body fun _ => Committable i) :
    ledger.Keeps O i Idle (MonitoringTask.inTransaction body) := by
  refine Triple.seq (fun _ => Idle) (triple_query fun c d r h _ => h) fun fault => ?_
  cases fault with
  | true => exact triple_raise fun c d h => h
  | false =>
    refine Triple.seq (fun _ => Idle) (Triple.transaction (fun _ _ => True) (fun _ => Committable i) h
      (fun c d d' _ he => ⟨he.2, rfl⟩) fun a c d d' hc he => ?_) fun result => ?_
    · have hguar := hc d' he
      exact ⟨hguar, hguar.inv, rfl⟩
    · refine Triple.seq (fun _ => Idle) (triple_query fun c d r h _ => h) fun late => ?_
      cases late with
      | true => exact triple_raise fun c d h => h
      | false => exact triple_pure fun c d h => h

/-! ### The unit of work of a claimed binding -/

/-- The objects of a transaction against the tables: it holds its binding under its claim, has locked
what it changes, and counts what it adds. `linked` are the findings that it has recorded. -/
structure Working (claim : BindingClaim) (linked : List ℕ) (w : BindingWork)
    (c : Ctx MonitoringWrite MonitoringLock) (d : MonitoringDatabase) : Prop where
  consistent : d.Consistent
  claimed : w.claim = claim
  lock : .binding claim.bindingId ∈ c.held
  owns : ∃ row, d.binding claim.bindingId = some row ∧ row.status = .active ∧ claim.holds row = true
  rowId : w.row.binding.id = claim.bindingId
  selected : ∀ row ∈ w.session.db.incidents, .incident row.id ∈ c.held ∧ row ∈ d.incidents
  changed : ∀ x ∈ w.session.changed, .incident x.id ∈ c.held ∧ ∃ row ∈ d.incidents, row.id = x.id
  counted : ∀ row ∈ d.incidents, (w.session.object row).occurrenceCount =
    row.occurrenceCount + w.session.addedEvidence.countP fun e => e.incidentId = row.id
  added : ∀ x ∈ w.session.addedIncidents, (∃ n ∈ c.owned, d.Unused n ∧ x.id = 2 * n) ∧
    x.occurrenceCount = w.session.addedEvidence.countP fun e => e.incidentId = x.id
  addedIds : (w.session.addedIncidents.map Incident.id).Nodup
  targets : ∀ e ∈ w.session.addedEvidence, (∃ x ∈ w.session.changed, x.id = e.incidentId) ∨
    ∃ x ∈ w.session.addedIncidents, x.id = e.incidentId
  links : ∀ e ∈ w.session.addedEvidence, ∀ id, e.findingId = some id → id ∈ linked
  recorded : ∀ id ∈ linked, d.Evident id ∨ ∃ e ∈ w.session.addedEvidence, e.findingId = some id

/-- The name that the next incident gets. -/
def Named (w : BindingWork) (c : Ctx MonitoringWrite MonitoringLock) (d : MonitoringDatabase) : Prop :=
  ∃ n ∈ c.owned, d.Unused n ∧ w.session.db.names = 2 * n ∧ ∀ x ∈ w.session.addedIncidents, x.id ≠ 2 * n

variable {claim : BindingClaim} {linked : List ℕ} {w : BindingWork}

theorem MonitoringDatabase.Consistent.same_row (hd : d.Consistent) {row row' : Incident}
    (h : row ∈ d.incidents) (h' : row' ∈ d.incidents) (hid : row.id = row'.id) : row = row' :=
  List.inj_on_of_nodup_map hd.ids h h' hid

theorem object_cases (s : UnitOfWork) (row : Incident) :
    (∃ x ∈ s.changed, x.id = row.id ∧ s.object row = x) ∨
      (∀ x ∈ s.changed, x.id ≠ row.id) ∧ s.object row = row := by
  unfold UnitOfWork.object
  cases hfind : s.changed.find? fun x => x.id = row.id with
  | none =>
    refine .inr ⟨fun x hx hid => ?_, rfl⟩
    have hnone := List.find?_eq_none.mp hfind x hx
    rw [decide_eq_true hid] at hnone
    exact hnone rfl
  | some x =>
    have hid := List.find?_some hfind
    exact .inl ⟨x, List.mem_of_find?_eq_some hfind, of_decide_eq_true hid, rfl⟩

theorem object_id (s : UnitOfWork) (row : Incident) : (s.object row).id = row.id := by
  rcases object_cases s row with ⟨x, -, hid, hobject⟩ | ⟨-, hobject⟩
  · rw [hobject, hid]
  · rw [hobject]

/-- No evidence is added to a row that is not changed. -/
theorem Working.unbooked (h : Working claim linked w c d) (he : ledger.Env i c d d') {row : Incident}
    (hrow : row ∈ d'.incidents) (hsame : ∀ x ∈ w.session.changed, x.id ≠ row.id) :
    (w.session.addedEvidence.countP fun e => e.incidentId = row.id) = 0 := by
  refine List.countP_eq_zero.mpr fun e hmem hid => ?_
  have htarget := of_decide_eq_true hid
  rcases h.targets e hmem with ⟨x, hx, hxid⟩ | ⟨x, hx, hxid⟩
  · exact hsame x hx (hxid.trans htarget)
  · obtain ⟨⟨n, hn, hu, hname⟩, -⟩ := h.added x hx
    refine (he.1.names n hn hu).incidents row hrow ?_
    rw [← htarget, ← hxid, hname]

theorem Working.stable (h : Working claim linked w c d) (he : ledger.Env i c d d') :
    Working claim linked w c d' where
  consistent := he.2
  claimed := h.claimed
  lock := h.lock
  owns := by
    obtain ⟨row, hrow, howns⟩ := h.owns
    exact ⟨row, he.1.binding _ h.lock row hrow, howns⟩
  rowId := h.rowId
  selected row hrow := by
    obtain ⟨hlock, hmem⟩ := h.selected row hrow
    exact ⟨hlock, (he.1.incident _ hlock row hmem rfl).1⟩
  changed x hx := by
    obtain ⟨hlock, row, hrow, hid⟩ := h.changed x hx
    exact ⟨hlock, row, (he.1.incident _ hlock row hrow hid).1, hid⟩
  counted row hrow := by
    rcases object_cases w.session row with ⟨x, hx, hid, -⟩ | ⟨hsame, hobject⟩
    · obtain ⟨hlock, old, hold, hidold⟩ := h.changed x hx
      have hold' := (he.1.incident _ hlock old hold hidold).1
      obtain rfl := he.2.same_row hrow hold' (hid.symm.trans hidold.symm)
      exact h.counted row hold
    · rw [hobject, h.unbooked he hrow hsame]
      rfl
  added x hx := by
    obtain ⟨⟨n, hn, hu, hname⟩, hcount⟩ := h.added x hx
    exact ⟨⟨n, hn, he.1.names n hn hu, hname⟩, hcount⟩
  addedIds := h.addedIds
  targets := h.targets
  links := h.links
  recorded id hid := by
    refine (h.recorded id hid).imp (fun ⟨e, hmem, hlink⟩ => ⟨e, he.1.evidence e hmem, hlink⟩) fun h => h

/-- More locks and more names, and another log. -/
theorem Working.extend (h : Working claim linked w c d) {k : Ctx MonitoringWrite MonitoringLock}
    (hheld : ∀ l ∈ c.held, l ∈ k.held) (howned : ∀ n ∈ c.owned, n ∈ k.owned) :
    Working claim linked w k d where
  consistent := h.consistent
  claimed := h.claimed
  lock := hheld _ h.lock
  owns := h.owns
  rowId := h.rowId
  selected row hrow := ⟨hheld _ (h.selected row hrow).1, (h.selected row hrow).2⟩
  changed x hx := ⟨hheld _ (h.changed x hx).1, (h.changed x hx).2⟩
  counted := h.counted
  added x hx := by
    obtain ⟨⟨n, hn, hu, hname⟩, hcount⟩ := h.added x hx
    exact ⟨⟨n, howned n hn, hu, hname⟩, hcount⟩
  addedIds := h.addedIds
  targets := h.targets
  links := h.links
  recorded := h.recorded

/-- Other values of the health, of the lease and of the columns of the binding. -/
theorem Working.retouch (h : Working claim linked w c d) {w' : BindingWork} (hclaim : w'.claim = w.claim)
    (hrow : w'.row.binding.id = w.row.binding.id)
    (hincidents : w'.session.db.incidents = w.session.db.incidents)
    (hchanged : w'.session.changed = w.session.changed)
    (hadded : w'.session.addedIncidents = w.session.addedIncidents)
    (hevidence : w'.session.addedEvidence = w.session.addedEvidence) : Working claim linked w' c d := by
  have hobject : w'.session.object = w.session.object := by
    unfold UnitOfWork.object
    rw [hchanged]
  refine ⟨h.consistent, hclaim.trans h.claimed, h.lock, h.owns, hrow.trans h.rowId, ?_, ?_, ?_, ?_, ?_, ?_,
    ?_, ?_⟩
  · rw [hincidents]
    exact h.selected
  · rw [hchanged]
    exact h.changed
  · rw [hobject, hevidence]
    exact h.counted
  · rw [hadded, hevidence]
    exact h.added
  · rw [hadded]
    exact h.addedIds
  · rw [hevidence, hchanged, hadded]
    exact h.targets
  · rw [hevidence]
    exact h.links
  · rw [hevidence]
    exact h.recorded

/-- The rows of the next SELECT. -/
theorem Working.select (h : Working claim linked w c d) {rows : List Incident}
    (hrows : ∀ row ∈ rows, .incident row.id ∈ c.held ∧ row ∈ d.incidents)
    (evidence : List IncidentEvidence) (name : ℕ) :
    Working claim linked (w.selected rows evidence name) c d where
  consistent := h.consistent
  claimed := h.claimed
  lock := h.lock
  owns := h.owns
  rowId := h.rowId
  selected := hrows
  changed := h.changed
  counted := h.counted
  added := h.added
  addedIds := h.addedIds
  targets := h.targets
  links := h.links
  recorded := h.recorded

theorem object_of_changed {s t : UnitOfWork} {x : Incident} (hchanged : t.changed = x :: s.changed)
    (row : Incident) : t.object row = if x.id = row.id then x else s.object row := by
  unfold UnitOfWork.object
  rw [hchanged, List.find?_cons]
  by_cases hid : x.id = row.id
  · simp [hid]
  · simp [hid]

/-- A change of an incident that counts nothing. -/
theorem Working.change (h : Working claim linked w c d) {row x : Incident}
    (hrow : row ∈ w.session.db.incidents) (hid : x.id = row.id)
    (hcount : x.occurrenceCount = (w.session.object row).occurrenceCount) :
    Working claim linked (w.onSession fun s => s.change x) c d := by
  obtain ⟨hlock, hmem⟩ := h.selected row hrow
  have hobject := object_of_changed (s := w.session) (t := w.session.change x) (x := x) rfl
  refine ⟨h.consistent, h.claimed, h.lock, h.owns, h.rowId, h.selected, fun y hy => ?_, fun old hold => ?_,
    h.added, h.addedIds, fun e he => ?_, h.links, h.recorded⟩
  · rcases List.mem_cons.mp hy with rfl | hy
    · exact ⟨hid ▸ hlock, row, hmem, hid.symm⟩
    · exact h.changed y hy
  · change ((w.session.change x).object old).occurrenceCount = _
    rw [hobject]
    split
    · rename_i hsame
      obtain rfl := h.consistent.same_row hmem hold (hid.symm.trans hsame)
      rw [hcount]
      exact h.counted row hmem
    · exact h.counted old hold
  · refine (h.targets e he).imp (fun ⟨y, hy, htarget⟩ => ⟨y, List.mem_cons_of_mem _ hy, htarget⟩) fun h => h

/-- What adding an evidence row does to the counts. -/
theorem countP_added (es : List IncidentEvidence) (e : IncidentEvidence) (id : ℕ) :
    (es ++ [e]).countP (fun e => e.incidentId = id) =
      es.countP (fun e => e.incidentId = id) + if e.incidentId = id then 1 else 0 := by
  rw [List.countP_append, List.countP_singleton]
  by_cases h : e.incidentId = id
  · simp [h]
  · simp [h]

/-- A further occurrence of a selected incident, with its evidence. -/
theorem Working.recur (h : Working claim linked w c d) {row x : Incident} {e : IncidentEvidence}
    {v : BindingWork} (hrow : row ∈ w.session.db.incidents) (hid : x.id = row.id)
    (hcount : x.occurrenceCount = (w.session.object row).occurrenceCount + 1) (he : e.incidentId = row.id)
    (hclaim : v.claim = w.claim) (hrowId : v.row.binding.id = w.row.binding.id)
    (hincidents : v.session.db.incidents = w.session.db.incidents)
    (hchanged : v.session.changed = x :: w.session.changed)
    (hadded : v.session.addedIncidents = w.session.addedIncidents)
    (hevidence : v.session.addedEvidence = w.session.addedEvidence ++ [e]) :
    Working claim (linked ++ e.findingId.toList) v c d := by
  obtain ⟨hlock, hmem⟩ := h.selected row hrow
  refine ⟨h.consistent, hclaim.trans h.claimed, h.lock, h.owns, hrowId.trans h.rowId, ?_, ?_, fun old hold => ?_,
    ?_, ?_, ?_, ?_, fun id hlinked => ?_⟩
  · rw [hincidents]
    exact h.selected
  · rw [hchanged]
    intro y hy
    rcases List.mem_cons.mp hy with rfl | hy
    · exact ⟨hid ▸ hlock, row, hmem, hid.symm⟩
    · exact h.changed y hy
  · rw [object_of_changed hchanged, hevidence, countP_added, he]
    split
    · rename_i hsame
      obtain rfl := h.consistent.same_row hmem hold (hid.symm.trans hsame)
      rw [hcount, h.counted row hmem, if_pos rfl]
      omega
    · rename_i hother
      rw [if_neg fun hsame => hother (hid.trans hsame)]
      exact h.counted old hold
  · rw [hadded, hevidence]
    intro y hy
    obtain ⟨⟨n, hn, hu, hname⟩, hbooked⟩ := h.added y hy
    refine ⟨⟨n, hn, hu, hname⟩, ?_⟩
    rw [countP_added, he, if_neg fun hsame => hu.incidents row hmem (hsame.trans hname)]
    exact hbooked
  · rw [hadded]
    exact h.addedIds
  · rw [hevidence, hchanged, hadded]
    intro e' he'
    rcases List.mem_append.mp he' with he' | he'
    · exact (h.targets e' he').imp (fun ⟨y, hy, htarget⟩ => ⟨y, List.mem_cons_of_mem _ hy, htarget⟩)
        fun h => h
    · obtain rfl := List.mem_singleton.mp he'
      exact .inl ⟨x, List.mem_cons_self, hid.trans he.symm⟩
  · rw [hevidence]
    intro e' he' id hlink
    rcases List.mem_append.mp he' with he' | he'
    · exact List.mem_append_left _ (h.links e' he' id hlink)
    · obtain rfl := List.mem_singleton.mp he'
      exact List.mem_append_right _ (by rw [hlink]; exact List.mem_singleton_self id)
  · rw [hevidence]
    rcases List.mem_append.mp hlinked with hlinked | hlinked
    · refine (h.recorded id hlinked).imp (fun h => h) fun ⟨e', he', hlink⟩ => ?_
      exact ⟨e', List.mem_append_left _ he', hlink⟩
    · exact .inr ⟨e, List.mem_append_right _ List.mem_cons_self, Option.mem_toList.mp hlinked⟩

/-- The first occurrence of an incident, under a drawn name. -/
theorem Working.first (h : Working claim linked w c d) (hname : Named w c d) {x : Incident}
    {e : IncidentEvidence} {v : BindingWork} (hid : x.id = w.session.db.names)
    (hcount : x.occurrenceCount = 1) (he : e.incidentId = x.id) (hclaim : v.claim = w.claim)
    (hrowId : v.row.binding.id = w.row.binding.id)
    (hincidents : v.session.db.incidents = w.session.db.incidents)
    (hchanged : v.session.changed = w.session.changed)
    (hadded : v.session.addedIncidents = w.session.addedIncidents ++ [x])
    (hevidence : v.session.addedEvidence = w.session.addedEvidence ++ [e]) :
    Working claim (linked ++ e.findingId.toList) v c d := by
  obtain ⟨n, hn, hu, hnames, hnew⟩ := hname
  have hxid : x.id = 2 * n := hid.trans hnames
  have hobject : v.session.object = w.session.object := by
    unfold UnitOfWork.object
    rw [hchanged]
  have hunbooked : (w.session.addedEvidence.countP fun e => e.incidentId = x.id) = 0 := by
    refine List.countP_eq_zero.mpr fun e' he' htarget => ?_
    have htarget := of_decide_eq_true htarget
    rcases h.targets e' he' with ⟨y, hy, hyid⟩ | ⟨y, hy, hyid⟩
    · obtain ⟨-, row, hrow, hrowid⟩ := h.changed y hy
      exact hu.incidents row hrow (hrowid.trans (hyid.trans (htarget.trans hxid)))
    · exact hnew y hy (hyid.trans (htarget.trans hxid))
  refine ⟨h.consistent, hclaim.trans h.claimed, h.lock, h.owns, hrowId.trans h.rowId, ?_, ?_, fun old hold => ?_,
    ?_, ?_, ?_, ?_, fun id hlinked => ?_⟩
  · rw [hincidents]
    exact h.selected
  · rw [hchanged]
    exact h.changed
  · rw [hobject, hevidence, countP_added, he, if_neg fun hsame => hu.incidents old hold (hsame.symm.trans hxid)]
    exact h.counted old hold
  · rw [hadded, hevidence]
    intro y hy
    rw [countP_added, he]
    rcases List.mem_append.mp hy with hy | hy
    · obtain ⟨hnamed, hbooked⟩ := h.added y hy
      refine ⟨hnamed, ?_⟩
      rw [if_neg fun hsame => hnew y hy (hsame.symm.trans hxid)]
      exact hbooked
    · obtain rfl := List.mem_singleton.mp hy
      refine ⟨⟨n, hn, hu, hxid⟩, ?_⟩
      rw [hunbooked, if_pos rfl, hcount]
  · rw [hadded, List.map_append, List.nodup_append]
    refine ⟨h.addedIds, List.nodup_singleton _, fun id hmem other hother hsame => ?_⟩
    obtain ⟨y, hy, rfl⟩ := List.mem_map.mp hmem
    obtain rfl := List.mem_singleton.mp hother
    exact hnew y hy (hsame.trans hxid)
  · rw [hevidence, hchanged, hadded]
    intro e' he'
    rcases List.mem_append.mp he' with he' | he'
    · exact (h.targets e' he').imp (fun h => h) fun ⟨y, hy, htarget⟩ =>
        ⟨y, List.mem_append_left _ hy, htarget⟩
    · obtain rfl := List.mem_singleton.mp he'
      exact .inr ⟨x, List.mem_append_right _ List.mem_cons_self, he.symm⟩
  · rw [hevidence]
    intro e' he' id hlink
    rcases List.mem_append.mp he' with he' | he'
    · exact List.mem_append_left _ (h.links e' he' id hlink)
    · obtain rfl := List.mem_singleton.mp he'
      exact List.mem_append_right _ (by rw [hlink]; exact List.mem_singleton_self id)
  · rw [hevidence]
    rcases List.mem_append.mp hlinked with hlinked | hlinked
    · refine (h.recorded id hlinked).imp (fun h => h) fun ⟨e', he', hlink⟩ => ?_
      exact ⟨e', List.mem_append_left _ he', hlink⟩
    · exact .inr ⟨e, List.mem_append_right _ List.mem_cons_self, Option.mem_toList.mp hlinked⟩

/-- Changes of selected incidents, one after the other. -/
theorem Working.changeAll {g : Incident → Incident} (hid : ∀ x, (g x).id = x.id)
    (hcount : ∀ x, (g x).occurrenceCount = x.occurrenceCount) (incidents : List Incident)
    (h : Working claim linked w c d) (hheld : ∀ x ∈ incidents, ∃ row ∈ w.session.db.incidents,
      x.id = row.id ∧ x.occurrenceCount =
        row.occurrenceCount + w.session.addedEvidence.countP fun e => e.incidentId = row.id) :
    Working claim linked (w.onSession fun s => incidents.foldl (fun s x => s.change (g x)) s) c d := by
  induction incidents generalizing w with
  | nil => exact h
  | cons x incidents ih =>
    obtain ⟨row, hrow, hxid, hxcount⟩ := hheld x List.mem_cons_self
    refine ih (h.change hrow ((hid x).trans hxid) ?_) fun y hy => hheld y (List.mem_cons_of_mem _ hy)
    rw [hcount, hxcount, h.counted row (h.selected row hrow).2]

theorem Working.selectIncidents (h : Working claim linked w c d) {condition : Incident → Bool} {x : Incident}
    (hx : x ∈ w.session.selectIncidents condition) : ∃ row ∈ w.session.db.incidents,
      x.id = row.id ∧ x.occurrenceCount =
        row.occurrenceCount + w.session.addedEvidence.countP fun e => e.incidentId = row.id := by
  obtain ⟨row, hrow, rfl⟩ := List.mem_map.mp hx
  have hmem := (List.mem_filter.mp hrow).1
  exact ⟨row, hmem, object_id _ row, h.counted row (h.selected row hmem).2⟩

/-! ### What the pure functions do to it -/

theorem stateRecur_fields (f : StateFinding) (incident : Incident) (now : ℤ) :
    (f.recurIncident incident now).id = incident.id ∧
      (f.recurIncident incident now).occurrenceCount = incident.occurrenceCount + 1 := by
  unfold StateFinding.recurIncident
  by_cases h : incident.status = .resolved
  · simp [h]
  · simp [h]

theorem findingRecur_fields (binding : MonitoringBinding) (run : ComparisonRun) (f : Finding)
    (cause : HealthCause) (incident : Incident) (now : ℤ) :
    (recurIncident binding run f cause incident now).id = incident.id ∧
      (recurIncident binding run f cause incident now).occurrenceCount = incident.occurrenceCount + 1 := by
  unfold recurIncident
  by_cases h : incident.status = .resolved
  · simp [h]
  · simp [h]

theorem Working.recordState (h : Working claim linked w c d) (hname : Named w c d) (f : StateFinding)
    (now : ℤ) : Working claim linked { w with session := (Monitoring.recordState f now w.session).2 } c d := by
  rcases recordState_cases f now w.session with hopened | ⟨row, hrow, -, ⟨-, hseen⟩ | hrecurred⟩
  · rw [hopened]
    have hfirst := h.first hname (x := f.openIncident w.session.db.binding.id w.session.db.names now)
      (v := { w with session := w.session.opened f now }) rfl rfl rfl rfl rfl rfl rfl rfl rfl
    exact List.append_nil linked ▸ hfirst
  · rw [hseen]
    exact h
  · rw [hrecurred]
    obtain ⟨hid, hcount⟩ := stateRecur_fields f (w.session.object row) now
    have hrow' := object_id w.session row
    have hrecur := h.recur hrow (hid.trans hrow') hcount
      (e := f.evidence w.session.db.names (f.recurIncident (w.session.object row) now).id now)
      (v := { w with session := w.session.recurred f (w.session.object row) now }) (hid.trans hrow')
      rfl rfl rfl rfl rfl rfl
    exact List.append_nil linked ▸ hrecur

theorem Working.recordFinding (h : Working claim linked w c d) (hname : Named w c d) {run : ComparisonRun}
    {now : ℤ} {f : Finding} (hevidence : ∀ e ∈ w.session.db.evidence, e ∈ d.evidence)
    {k : HealthCause × IncidentSeverity} {s : UnitOfWork}
    (hs : recordFinding run now w.session f = .ok (k, s)) :
    Working claim (linked ++ [f.id]) { w with session := s } c d := by
  obtain ⟨-, ⟨⟨e, he, hlink⟩, rfl⟩ | rfl | ⟨row, hrow, -, rfl⟩⟩ := recordFinding_cases hs
  · refine ⟨h.consistent, h.claimed, h.lock, h.owns, h.rowId, h.selected, h.changed, h.counted, h.added,
      h.addedIds, h.targets, fun e he id hid => List.mem_append_left _ (h.links e he id hid),
      fun id hid => ?_⟩
    rcases List.mem_append.mp hid with hid | hid
    · exact h.recorded id hid
    · obtain rfl := List.mem_singleton.mp hid
      exact .inl ⟨e, hevidence e he, hlink⟩
  · exact h.first hname (e := run.evidence f (w.session.db.names + 1) w.session.db.names now) rfl rfl rfl
      rfl rfl rfl rfl rfl rfl
  · obtain ⟨hid, hcount⟩ := findingRecur_fields w.session.db.binding run f
      (causeForDivergence f.divergenceType) (w.session.object row) now
    have hrow' := object_id w.session row
    exact h.recur hrow (hid.trans hrow') hcount (e := run.evidence f w.session.db.names
      (recurIncident w.session.db.binding run f (causeForDivergence f.divergenceType)
        (w.session.object row) now).id now) (hid.trans hrow') rfl rfl rfl rfl rfl rfl

theorem Working.recoverStale (h : Working claim linked w c d) (type : IncidentType) (note : String)
    (now : ℤ) : Working claim linked { w with session := recoverStale type note now w.session } c d :=
  Working.changeAll (g := closeStale note now) (fun _ => rfl) (fun _ => rfl) _ h fun _ hx =>
    h.selectIncidents hx

theorem Working.project (h : Working claim linked w c d) (health : HealthState) :
    Working claim linked { w with session := w.session.project health } c d :=
  h.retouch rfl rfl rfl rfl rfl rfl

theorem named_project (hname : Named w c d) (health : HealthState) :
    Named { w with session := w.session.project health } c d := hname

theorem Working.recordRuntimeFailure (h : Working claim linked w c d) (hname : Named w c d)
    (activation : LiveStrategy.LiveStrategyActivation) (policy : Option MonitoringPolicy)
    (errorMessage runtimeStatus : Option String) (fallbackSeverity : Option IncidentSeverity) (now : ℤ) :
    Working claim linked (w.onSession (recordActivationRuntimeFailure activation policy errorMessage
      runtimeStatus fallbackSeverity now)) c d := by
  have hprojected := h.project { setHealth w.session.db.health .error .runtime
    (runtimeSeverity policy fallbackSeverity 1 (Nat.le_refl 1)) with
      lastError := some (failureText activation errorMessage) }
  exact hprojected.recordState (named_project hname _) (runtimeFailure w.session.db.binding policy
    fallbackSeverity (failureLabel activation runtimeStatus) (failureText activation errorMessage)) now

theorem Working.evaluateStaleness (h : Working claim linked w c d)
    (activation : LiveStrategy.LiveStrategyActivation) (now : ℤ) (hname :
      w.session.db.binding.policy.staleAfterSeconds * second ≤
        now - activation.lastEvaluatedAt.getD activation.activatedAt → Named w c d) :
    Working claim linked (w.onSession (evaluateStaleness activation now)) c d := by
  have hprojected := h.project { w.session.db.health with lastEvaluatedAt := activation.lastEvaluatedAt }
  unfold BindingWork.onSession Monitoring.evaluateStaleness
  dsimp only
  split
  · rename_i hstale
    exact (hprojected.recordState (named_project (hname hstale) _) _ now).project _
  · split
    · exact (hprojected.recoverStale _ _ now).project _
    · exact hprojected.recoverStale _ _ now

theorem Working.evaluateComparisonFreshness (h : Working claim linked w c d) (now : ℤ) (hname :
      w.session.db.binding.policy.comparisonStaleAfterSeconds * second ≤
        now - w.session.db.health.lastCompleteComparisonAt.getD w.session.db.binding.registeredAt →
        Named w c d) :
    Working claim linked (w.onSession (evaluateComparisonFreshness now)) c d := by
  unfold BindingWork.onSession Monitoring.evaluateComparisonFreshness
  dsimp only
  split
  · rename_i hstale
    exact (h.recordState (hname hstale) _ now).project _
  · exact h.recoverStale _ _ now

theorem Working.projectHealth (h : Working claim linked w c d) {run : ComparisonRun} {now : ℤ} {scan : Scan}
    (hscan : scan.session = w.session) {s : UnitOfWork} {health : HealthState}
    (hs : projectHealth run now scan = .ok (s, health)) :
    Working claim linked { w with session := s.project health } c d := by
  have hsession : Working claim linked { w with session := s } c d := by
    rcases projectHealth_session hs with rfl | ⟨complete, rfl⟩
    · rw [hscan]
      exact h
    · rw [hscan]
      unfold recordHealthyComparison
      dsimp only
      split
      · split
        · exact h
        · exact h
      · exact Working.changeAll (g := resolveIncident (complete.consecutiveHealthyChecks + 1) now)
          (fun _ => rfl) (fun _ => rfl) _ h fun _ hx => h.selectIncidents hx
  exact hsession.project health

end Quantive.Monitoring
