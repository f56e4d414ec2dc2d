import Quantive.Monitoring.BindingWork
import Quantive.Monitoring.Grouping

/-!
# A cycle on a claimed binding

The statements of `_process_one_comparison` and of its siblings keep what `Working` says, from a page
of findings to the next one.
-/

namespace Quantive.Monitoring
open Quantive.ReadCommitted Prog Protocol MonitoringDatabase MonitoringTask

variable {i : MonitoringParty} {c : Ctx MonitoringWrite MonitoringLock} {d d' : MonitoringDatabase}
  {O : (q : MonitoringQuestion) → MonitoringAnswer q → Prop} {α : Type}
  {J Pre : Ctx MonitoringWrite MonitoringLock → MonitoringDatabase → Prop}
  {claim : BindingClaim} {linked : List ℕ} {w : BindingWork}

/-! ### Statements that lock -/

theorem triple_acquireAll {γ : Type} (hPre : ledger.Lockable i Pre) (lock : γ → MonitoringLock)
    (rows : List γ) : ledger.Triple O i J Pre (forEach (fun row => acquire (lock row)) rows :
      MonitoringTask Unit) fun _ c d => Pre c d ∧ ∀ row ∈ rows, lock row ∈ c.held := by
  have hstep (done : List γ) (x : γ) : ledger.Triple O i J
      (fun c d => Pre c d ∧ ∀ row ∈ done, lock row ∈ c.held) (acquire (lock x) : MonitoringTask Unit)
      fun _ c d => Pre c d ∧ ∀ row ∈ done ++ [x], lock row ∈ c.held := by
    refine triple_acquire fun c d d' h he => ⟨hPre.hold c d' _ (hPre.stable c d d' h.1 he), ?_⟩
    intro row hrow
    rcases List.mem_append.mp hrow with hrow | hrow
    · exact List.mem_cons_of_mem _ (h.2 row hrow)
    · obtain rfl := List.mem_singleton.mp hrow
      exact List.mem_cons_self
  exact (triple_forEach hstep [] rows).pre fun c d h => ⟨h, fun row hrow => by cases hrow⟩

theorem triple_lockIncidents (hPre : ledger.Lockable i Pre)
    (hview : ∀ c d, Pre c d → (c.view d).incidents = d.incidents) (condition : Incident → Bool) :
    ledger.Triple O i J Pre (lockIncidents condition) fun rows c d =>
      Pre c d ∧ ∀ row ∈ rows, (.incident row.id ∈ c.held ∧ row ∈ d.incidents) ∧ condition row = true := by
  refine Triple.seq (fun _ => Pre) ((triple_look hPre.stable).post fun _ _ _ h => h.1) fun snapshot => ?_
  refine (triple_acquireAll hPre (fun row : Incident => .incident row.id)
    (snapshot.incidents.filter condition)).bind fun _ => ?_
  refine Triple.seq (fun s c d => (Pre c d ∧
    ∀ row ∈ snapshot.incidents.filter condition, .incident row.id ∈ c.held) ∧ s = c.view d)
    (triple_view fun c d d' h he => ⟨⟨hPre.stable c d d' h.1 he, h.2⟩, rfl⟩) fun s => ?_
  refine triple_pure fun c d h => ⟨h.1.1, fun row hrow => ?_⟩
  obtain ⟨hmem, hcondition⟩ := List.mem_filter.mp hrow
  obtain ⟨hmeets, hfound⟩ := Bool.and_eq_true_iff.mp hcondition
  obtain ⟨x, hx, hid⟩ := List.any_eq_true.mp hfound
  refine ⟨⟨of_decide_eq_true hid ▸ h.1.2 x hx, ?_⟩, hmeets⟩
  rw [h.2, hview c d h.1.1] at hmem
  exact hmem

theorem triple_lockEvidence (hPre : ledger.Lockable i Pre)
    (hview : ∀ c d, Pre c d → (c.view d).evidence = d.evidence) (condition : IncidentEvidence → Bool) :
    ledger.Triple O i J Pre (lockEvidence condition) fun rows c d =>
      Pre c d ∧ ∀ e ∈ rows, e ∈ d.evidence := by
  refine Triple.seq (fun s c d => Pre c d ∧ ∀ e ∈ s.evidence, e ∈ d.evidence)
    (triple_view fun c d d' h he => ?_) fun s => ?_
  · have h' := hPre.stable c d d' h he
    exact ⟨h', hview c d' h' ▸ fun _ h => h⟩
  · refine Triple.seq (fun _ c d => Pre c d ∧ ∀ e ∈ s.evidence, e ∈ d.evidence)
      (Triple.forEach fun e _ => triple_acquire fun c d d' h he => ?_) fun _ => ?_
    · exact ⟨hPre.hold c d' _ (hPre.stable c d d' h.1 he), fun e hmem => he.1.evidence e (h.2 e hmem)⟩
    · exact triple_pure fun c d h => ⟨h.1, fun e hmem => h.2 e (List.mem_filter.mp hmem).1⟩

theorem triple_ofExcept {r : Except MonitoringError α}
    {Post : α → Ctx MonitoringWrite MonitoringLock → MonitoringDatabase → Prop}
    (h : ∀ a, r = .ok a → ∀ c d, Pre c d → Post a c d) :
    ledger.Triple O i (fun _ _ => True) Pre (ofExcept r) Post := by
  cases r with
  | ok a => exact triple_pure (h a rfl)
  | error e => exact triple_raise fun _ _ _ => trivial

/-! ### Between two statements -/

/-- So far the transaction has written health rows alone. -/
def HealthOnly (log : List MonitoringWrite) : Prop := ∀ x ∈ log, ∃ id row, x = .putHealth id row

theorem healthOnly_foldl {log : List MonitoringWrite} (h : HealthOnly log) (d : MonitoringDatabase) :
    ∃ health, log.foldl (fun d x => Store.apply x d) d = { d with health := health } := by
  induction log generalizing d with
  | nil => exact ⟨d.health, rfl⟩
  | cons x log ih =>
    obtain ⟨id, row, rfl⟩ := h x List.mem_cons_self
    obtain ⟨health, hrest⟩ := ih (fun y hy => h y (List.mem_cons_of_mem _ hy))
      (Store.apply (MonitoringWrite.putHealth id row) d)
    exact ⟨health, hrest⟩

/-- What no other session changes. -/
def Fixed (F : MonitoringDatabase → Prop) : Prop := ∀ held owned d d', Others held owned d d' → F d → F d'

/-- The transaction between two statements; `F` is what it knows of the tables besides. -/
structure Busy (F : MonitoringDatabase → Prop) (claim : BindingClaim) (linked : List ℕ) (w : BindingWork)
    (c : Ctx MonitoringWrite MonitoringLock) (d : MonitoringDatabase) : Prop where
  working : Working claim linked w c d
  written : HealthOnly c.log
  known : F d

variable {F : MonitoringDatabase → Prop}

theorem Busy.view (h : Busy F claim linked w c d) : ∃ health, c.view d = { d with health := health } :=
  healthOnly_foldl h.written d

theorem Busy.lockable (hF : Fixed F) : ledger.Lockable i (Busy F claim linked w) where
  stable _ _ _ h he := ⟨h.working.stable he, h.written, hF _ _ _ _ he.1 h.known⟩
  hold _ _ _ h := ⟨h.working.extend (fun _ h => List.mem_cons_of_mem _ h) fun _ h => h, h.written, h.known⟩

theorem Busy.update {w' : BindingWork} {linked' : List ℕ} (h : Busy F claim linked w c d)
    (hw : Working claim linked' w' c d) : Busy F claim linked' w' c d :=
  ⟨hw, h.written, h.known⟩

theorem Busy.incidents (h : Busy F claim linked w c d) : (c.view d).incidents = d.incidents := by
  obtain ⟨health, hview⟩ := h.view
  rw [hview]

theorem Busy.evidence (h : Busy F claim linked w c d) : (c.view d).evidence = d.evidence := by
  obtain ⟨health, hview⟩ := h.view
  rw [hview]

/-- A drawn name is new to the incidents that the transaction adds. -/
theorem Working.named (h : Working claim linked w c d) {n : ℕ} (hn : n ∉ c.owned) (hu : d.Unused n)
    (incidents : List Incident) (evidence : List IncidentEvidence) :
    Named (w.selected incidents evidence n) (c.own n) d := by
  refine ⟨n, List.mem_cons_self, hu, rfl, fun x hx hid => ?_⟩
  obtain ⟨⟨m, hm, -, hname⟩, -⟩ := h.added x hx
  exact hn ((by omega : m = n) ▸ hm)

/-- The draw behind the SELECTs. -/
theorem triple_selected (hF : Fixed F) (incidents : List Incident) (evidence : List IncidentEvidence) :
    ledger.Triple O i J (fun c d => Busy F claim linked w c d ∧
        (∀ row ∈ incidents, .incident row.id ∈ c.held ∧ row ∈ d.incidents) ∧ ∀ e ∈ evidence, e ∈ d.evidence)
      (do let name ← draw; pure (w.selected incidents evidence name) : MonitoringTask BindingWork)
      fun w' c d => (∃ name, w' = w.selected incidents evidence name) ∧ Busy F claim linked w' c d ∧
        Named w' c d ∧ ∀ e ∈ evidence, e ∈ d.evidence := by
  refine Triple.seq (fun n c d => Busy F claim linked (w.selected incidents evidence n) c d ∧
    Named (w.selected incidents evidence n) c d ∧ ∀ e ∈ evidence, e ∈ d.evidence)
    (triple_draw fun c d d' n h he hn hu => ?_) fun n => ?_
  · obtain ⟨hbusy, hincidents, hevidence⟩ := h
    have hlater := (Busy.lockable hF).stable c d d' hbusy he
    have hrows : ∀ row ∈ incidents, .incident row.id ∈ c.held ∧ row ∈ d'.incidents := fun row hrow =>
      ⟨(hincidents row hrow).1, (he.1.incident _ (hincidents row hrow).1 row (hincidents row hrow).2 rfl).1⟩
    have hselected := (hlater.working.select hrows evidence n).extend (k := c.own n) (fun _ h => h)
      fun _ h => List.mem_cons_of_mem _ h
    exact ⟨⟨hselected, hlater.written, hlater.known⟩, hlater.working.named hn hu incidents evidence,
      fun e hmem => he.1.evidence e (hevidence e hmem)⟩
  · exact triple_pure fun c d h => ⟨⟨n, rfl⟩, h⟩

theorem triple_selectState (hF : Fixed F) (key evidenceKey : Value) :
    ledger.Triple O i J (Busy F claim linked w) (selectState key evidenceKey w) fun w' c d =>
      (∃ incidents evidence name, w' = w.selected incidents evidence name) ∧ Busy F claim linked w' c d ∧
        Named w' c d := by
  refine (triple_lockIncidents (Busy.lockable hF) (fun _ _ h => h.incidents) _).bind fun incidents => ?_
  have hlockable : ledger.Lockable i fun c d => Busy F claim linked w c d ∧
      ∀ row ∈ incidents, .incident row.id ∈ c.held ∧ row ∈ d.incidents := ⟨fun c d d' h he => ⟨?_, ?_⟩, ?_⟩
  · refine Triple.seq (fun evidence c d => (Busy F claim linked w c d ∧
      ∀ row ∈ incidents, .incident row.id ∈ c.held ∧ row ∈ d.incidents) ∧ ∀ e ∈ evidence, e ∈ d.evidence)
      ((triple_lockEvidence hlockable (fun _ _ h => h.1.evidence) _).pre fun c d h =>
        ⟨h.1, fun row hrow => (h.2 row hrow).1⟩) fun evidence => ?_
    refine (triple_selected hF incidents evidence).conseq (fun c d h => ⟨h.1.1, h.1.2, h.2⟩) ?_
    exact fun w' c d ⟨⟨name, hw⟩, hbusy, hname, _⟩ => ⟨⟨incidents, evidence, name, hw⟩, hbusy, hname⟩
  · exact (Busy.lockable hF).stable c d d' h.1 he
  · exact fun row hrow => ⟨(h.2 row hrow).1, (he.1.incident _ (h.2 row hrow).1 row (h.2 row hrow).2 rfl).1⟩
  · exact fun c d l h => ⟨(Busy.lockable (i := i) hF).hold c d l h.1, fun row hrow =>
      ⟨List.mem_cons_of_mem _ (h.2 row hrow).1, (h.2 row hrow).2⟩⟩

theorem triple_selectFinding (hF : Fixed F) (finding : Finding) :
    ledger.Triple O i J (Busy F claim linked w) (selectFinding finding w) fun w' c d =>
      Busy F claim linked w' c d ∧ Named w' c d ∧ ∀ e ∈ w'.session.db.evidence, e ∈ d.evidence := by
  refine (triple_lockEvidence (Busy.lockable hF) (fun _ _ h => h.evidence) _).bind fun evidence => ?_
  have hlockable : ledger.Lockable i fun c d => Busy F claim linked w c d ∧ ∀ e ∈ evidence, e ∈ d.evidence :=
    ⟨fun c d d' h he => ⟨(Busy.lockable hF).stable c d d' h.1 he, fun e hmem =>
      he.1.evidence e (h.2 e hmem)⟩, fun c d l h => ⟨(Busy.lockable (i := i) hF).hold c d l h.1, h.2⟩⟩
  refine (triple_lockIncidents hlockable (fun _ _ h => h.1.incidents) _).bind fun incidents => ?_
  refine (triple_selected hF incidents evidence).conseq
    (fun c d h => ⟨h.1.1, fun row hrow => (h.2 row hrow).1, h.1.2⟩) ?_
  rintro w' c d ⟨⟨name, rfl⟩, hbusy, hname, hevidence⟩
  exact ⟨hbusy, hname, hevidence⟩

/-! ### Observations -/

theorem triple_recordRuntimeFailure (hF : Fixed F) (activation : LiveStrategy.LiveStrategyActivation)
    (policy : Option MonitoringPolicy) (errorMessage runtimeStatus : Option String)
    (fallbackSeverity : Option IncidentSeverity) :
    ledger.Triple O i J (Busy F claim linked w)
      (recordRuntimeFailure activation policy errorMessage runtimeStatus fallbackSeverity w) fun w' =>
        Busy F claim linked w' := by
  refine Triple.seq (fun _ => Busy F claim linked w) (triple_query fun _ _ _ h _ => h) fun now => ?_
  refine (triple_selectState hF _ _).bind fun w' => triple_pure fun c d h => ?_
  exact h.2.1.update (h.2.1.working.recordRuntimeFailure h.2.2 activation policy errorMessage runtimeStatus
    fallbackSeverity now)

/-- A recovery needs no new name. -/
theorem triple_recover (hF : Fixed F) (condition : Incident → Bool) {f : UnitOfWork → UnitOfWork}
    (h : ∀ incidents c d, Working claim linked (w.selected incidents [] 0) c d →
      Working claim linked ((w.selected incidents [] 0).onSession f) c d) :
    ledger.Triple O i J (Busy F claim linked w) (do
      let incidents ← lockIncidents condition
      let w ← pure (w.selected incidents [] 0)
      pure (w.onSession f) : MonitoringTask BindingWork) fun w' => Busy F claim linked w' := by
  refine (triple_lockIncidents (Busy.lockable hF) (fun _ _ h => h.incidents) _).bind fun incidents => ?_
  exact triple_pure fun c d hrows =>
    hrows.1.update (h incidents c d (hrows.1.working.select (fun row hrow => (hrows.2 row hrow).1) [] 0))

theorem triple_checkComparisonFreshness (hF : Fixed F) :
    ledger.Triple O i J (Busy F claim linked w) (checkComparisonFreshness w) fun w' =>
      Busy F claim linked w' := by
  refine Triple.seq (fun _ => Busy F claim linked w) (triple_query fun _ _ _ h _ => h) fun now => ?_
  dsimp only
  split
  · refine (triple_selectState hF _ _).bind fun w' => triple_pure fun c d h => ?_
    exact h.2.1.update (h.2.1.working.evaluateComparisonFreshness now fun _ => h.2.2)
  · rename_i hfresh
    exact triple_recover hF _ fun incidents c d h =>
      h.evaluateComparisonFreshness now fun hstale => absurd hstale hfresh

theorem triple_checkStaleness (hF : Fixed F) (activation : LiveStrategy.LiveStrategyActivation) :
    ledger.Triple O i J (Busy F claim linked w) (checkStaleness activation w) fun w' =>
      Busy F claim linked w' := by
  refine Triple.seq (fun _ => Busy F claim linked w) (triple_query fun _ _ _ h _ => h) fun now => ?_
  dsimp only
  split
  · refine (triple_selectState hF _ _).bind fun w' => triple_pure fun c d h => ?_
    exact h.2.1.update (h.2.1.working.evaluateStaleness activation now fun _ => h.2.2)
  · rename_i hfresh
    exact triple_recover hF _ fun incidents c d h =>
      h.evaluateStaleness activation now fun hstale => absurd hstale hfresh

/-! ### A run, page by page -/

theorem triple_processFindings (hF : Fixed F) (run : ComparisonRun) (now : ℤ) (findings : List Finding)
    (a : Assessing) :
    ledger.Triple O i (fun _ _ => True) (Busy F claim linked a.work) (processFindings run now findings a)
      fun a' => Busy F claim (linked ++ findings.map Finding.id) a'.work := by
  induction findings generalizing a linked with
  | nil => exact triple_pure fun c d h => (List.append_nil linked).symm ▸ h
  | cons finding findings ih =>
    refine (triple_selectFinding hF finding).bind fun w => ?_
    refine Triple.seq (fun scan => Busy F claim (linked ++ [finding.id]) { w with session := scan.session })
      (triple_ofExcept fun scan hscan c d ⟨hbusy, hname, hevidence⟩ => ?_) fun scan => ?_
    · obtain ⟨k, session, hrecord, rfl⟩ := scanFinding_ok hscan
      exact hbusy.update (hbusy.working.recordFinding hname hevidence hrecord)
    · have hrest := @ih (linked ++ [finding.id]) (.ofScan w scan)
      rw [List.append_assoc] at hrest
      exact hrest

/-- The run and the findings that came with it. -/
def Reports (runId : String) (findings : List Finding) (d : MonitoringDatabase) : Prop :=
  d.Ran runId ∧ d.reported runId = findings

theorem reports_fixed (runId : String) (findings : List Finding) : Fixed (Reports runId findings) := by
  rintro held owned d d' h ⟨hran, rfl⟩
  exact h.runs runId hran

/-- The findings of a run in page order. -/
def pageOrder (findings : List Finding) : List Finding :=
  findings.insertionSort fun f g => f.pageKey ≤ g.pageKey

theorem triple_processPages (settings : MonitoringSettings) {run : ComparisonRun} (now : ℤ)
    {findings : List Finding} (fuel : ℕ) {done rest : List Finding} {cursor : Option (ℤ ×ₗ ℕ)}
    (hrows : pageOrder findings = done ++ rest)
    (hcursor : afterCursor Finding.pageKey (pageOrder findings) cursor = rest) (a : Assessing) :
    ledger.Triple O i (fun _ _ => True)
      (Busy (Reports run.runId findings) claim (done.map Finding.id) a.work)
      (processPages settings run now fuel cursor a) fun a' =>
        Busy (Reports run.runId findings) claim ((pageOrder findings).map Finding.id) a'.work := by
  have hF := reports_fixed run.runId findings
  induction fuel generalizing done rest cursor a with
  | zero => exact triple_raise fun _ _ _ => trivial
  | succ fuel ih =>
    refine Triple.seq (fun s c d =>
      ((s.storeOf a.work.session.db.binding).findingsOf run.runId = pageOrder findings ∧
        (pageOrder findings).Pairwise fun f g => f.pageKey < g.pageKey) ∧
      Busy (Reports run.runId findings) claim (done.map Finding.id) a.work c d)
      (triple_view fun c d d' h he => ?_) fun s => Triple.fact ?_
    · have hlater := (Busy.lockable hF).stable c d d' h he
      obtain ⟨health, hview⟩ := hlater.view
      have hpages : ((c.view d').storeOf a.work.session.db.binding).findingsOf run.runId =
          pageOrder findings := by
        rw [hview, ← hlater.known.2]
        rfl
      refine ⟨⟨hpages, hpages ▸ MonitoringStore.findingsOf_increasing ?_ run.runId⟩, hlater⟩
      rw [hview]
      exact hlater.working.consistent.findings
    · rintro ⟨hpages, hsorted⟩
      dsimp only
      rw [hpages, hcursor]
      cases hlast : (rest.take settings.findingPageSize).getLast? with
      | none =>
        have hsize := settings.positive
        have hrest : rest = [] := by
          rcases List.take_eq_nil_iff.mp (List.getLast?_eq_none_iff.mp hlast) with hzero | hrest
          · omega
          · exact hrest
        refine triple_pure fun c d h => ?_
        rw [hrows, hrest, List.append_nil]
        exact h
      | some last =>
        obtain ⟨init, hpage⟩ := List.getLast?_eq_some_iff.mp hlast
        refine (triple_processFindings hF run now _ a).bind fun a' => ?_
        rw [← List.map_append]
        refine Triple.seq (fun _ => Busy (Reports run.runId findings) claim
          ((done ++ rest.take settings.findingPageSize).map Finding.id) a'.work)
          (triple_query fun _ _ _ h _ => h) fun renewedAt => ?_
        have hlease (linked : List ℕ) (c : Ctx MonitoringWrite MonitoringLock) (d : MonitoringDatabase)
            (h : Busy (Reports run.runId findings) claim linked a'.work c d) :
            Busy (Reports run.runId findings) claim linked (a'.work.onSession
              (UnitOfWork.renewLease · (renewedAt + leaseSeconds settings))) c d :=
          h.update (h.working.retouch rfl rfl rfl rfl rfl rfl)
        split
        · rename_i hshort
          have hall : rest.take settings.findingPageSize = rest := by
            rw [List.length_take] at hshort
            exact List.take_of_length_le (by omega)
          refine triple_pure fun c d h => hlease _ c d ?_
          rw [hall, ← hrows] at h
          exact h
        · have hsplit : pageOrder findings =
              (done ++ rest.take settings.findingPageSize) ++ rest.drop settings.findingPageSize := by
            rw [List.append_assoc, List.take_append_drop, hrows]
          have hnext : afterCursor Finding.pageKey (pageOrder findings) (some last.pageKey) =
              rest.drop settings.findingPageSize := by
            have hbehind : pageOrder findings =
                (done ++ init) ++ last :: rest.drop settings.findingPageSize := by
              rw [hsplit, hpage, List.append_assoc, List.append_assoc, List.append_assoc,
                List.singleton_append]
            rw [hbehind]
            exact afterCursor_append (hbehind ▸ hsorted)
          exact (ih hsplit hnext _).pre (hlease _)

/-- `a` is the assessment of the run. -/
def Assesses (run : ComparisonRun) (claim : BindingClaim) (a : MonitoringAssessment) : Prop :=
  a.comparisonRunId = run.runId ∧ a.processorWorkerId = claim.workerId

theorem triple_projectRun (run : ComparisonRun) (now : ℤ) (a : Assessing) (unresolved : List Incident) :
    ledger.Triple O i (fun _ _ => True) (fun c d => Busy F claim linked a.work c d ∧
        ∀ row ∈ unresolved, .incident row.id ∈ c.held ∧ row ∈ d.incidents)
      (projectRun run now a unresolved) fun r c d => Assesses run claim r.2 ∧
        Busy F claim linked r.1 c d := by
  unfold projectRun
  dsimp only
  refine Triple.seq (fun r => fun c d => a.work.claim = claim ∧ Busy F claim linked
    ((a.work.selected unresolved [] 0).onSession fun _ => r.1.project r.2) c d)
    (triple_ofExcept fun r hproject c d h => ?_) fun r => ?_
  · have hselected := h.1.working.select h.2 [] 0
    exact ⟨h.1.working.claimed, h.1.update (hselected.projectHealth (w := a.work.selected unresolved [] 0) rfl
      hproject)⟩
  · obtain ⟨session, health⟩ := r
    exact triple_pure fun c d h => ⟨⟨rfl, congrArg BindingClaim.workerId h.1⟩, h.2⟩

theorem triple_processRun (settings : MonitoringSettings) (run : ComparisonRun) (findings : List Finding) :
    ledger.Triple O i (fun _ _ => True) (Busy (Reports run.runId findings) claim [] w)
      (processRun settings run w) fun r c d => Assesses run claim r.2 ∧
        Busy (Reports run.runId findings) claim ((pageOrder findings).map Finding.id) r.1 c d := by
  have hF := reports_fixed run.runId findings
  unfold processRun
  dsimp only
  split
  · exact triple_raise fun _ _ _ => trivial
  split
  · exact triple_raise fun _ _ _ => trivial
  split
  · exact triple_raise fun _ _ _ => trivial
  refine Triple.seq (fun _ => Busy (Reports run.runId findings) claim [] w)
    (triple_query fun _ _ _ h _ => h) fun now => ?_
  refine ((triple_look (Busy.lockable hF).stable).post fun _ _ _ h => h.1).bind fun s => ?_
  refine (triple_processPages settings now _ (List.nil_append _).symm rfl { work := w }).bind fun a => ?_
  split
  · refine (triple_lockIncidents (Busy.lockable hF) (fun _ _ h => h.incidents) _).bind fun unresolved => ?_
    exact (triple_projectRun run now a unresolved).pre fun c d h => ⟨h.1, fun row hrow => (h.2 row hrow).1⟩
  · exact (triple_projectRun run now a []).pre fun c d h => ⟨h, fun row hrow => by cases hrow⟩

end Quantive.Monitoring
