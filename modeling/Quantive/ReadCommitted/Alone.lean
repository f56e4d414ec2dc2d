import Quantive.ReadCommitted.Triple

/-!
# One session alone

`run` executes a program while no other session is active: every lock is free, and the
`n`-th question is answered by `ans n`. What the program logic says of every interleaving holds
of such a run (`run_of_wp`).
-/

set_option linter.unusedSectionVars false

namespace Quantive.ReadCommitted
variable {D W L Q ι : Type} {R : Q → Type} {ε α β γ : Type} [Store D W]

structure Alone (D W L : Type) where
  db : D
  names : ℕ := 0
  asked : ℕ := 0
  ctx : Ctx W L := {}

namespace Alone

def withCtx (s : Alone D W L) (c : Ctx W L) : Alone D W L := { s with ctx := c }
def view (s : Alone D W L) : D := s.ctx.view s.db
def push (s : Alone D W L) (w : W) : Alone D W L := s.withCtx (s.ctx.push w)
def hold (s : Alone D W L) (l : L) : Alone D W L := s.withCtx (s.ctx.hold l)
def drawn (s : Alone D W L) : Alone D W L :=
  { s with names := s.names + 1, ctx := s.ctx.own s.names }
def committed (s : Alone D W L) : Alone D W L := { s with db := s.view, ctx := s.ctx.release }
def rolledBack (s : Alone D W L) : Alone D W L := s.withCtx s.ctx.release
def answered (s : Alone D W L) : Alone D W L := { s with asked := s.asked + 1 }

@[simp] theorem push_view (s : Alone D W L) (w : W) : (s.push w).view = Store.apply w s.view :=
  Ctx.view_push _ _ _
@[simp] theorem push_db (s : Alone D W L) (w : W) : (s.push w).db = s.db := rfl
@[simp] theorem hold_view (s : Alone D W L) (l : L) : (s.hold l).view = s.view := rfl
@[simp] theorem hold_db (s : Alone D W L) (l : L) : (s.hold l).db = s.db := rfl
@[simp] theorem drawn_view (s : Alone D W L) : s.drawn.view = s.view := rfl
@[simp] theorem drawn_db (s : Alone D W L) : s.drawn.db = s.db := rfl
@[simp] theorem committed_view (s : Alone D W L) : s.committed.view = s.view := rfl
@[simp] theorem committed_db (s : Alone D W L) : s.committed.db = s.view := rfl
@[simp] theorem rolledBack_view (s : Alone D W L) : s.rolledBack.view = s.db := rfl
@[simp] theorem rolledBack_db (s : Alone D W L) : s.rolledBack.db = s.db := rfl
@[simp] theorem answered_view (s : Alone D W L) : s.answered.view = s.view := rfl
@[simp] theorem answered_db (s : Alone D W L) : s.answered.db = s.db := rfl

end Alone

namespace Prog
variable (ans : ℕ → (q : Q) → R q)

/-- The outcome and the final state; `none` when the program never ends. -/
def run : Prog D W L R ε α → Alone D W L → Option (Except ε α × Alone D W L)
  | ret a, s => some (.ok a, s)
  | fail e, s => some (.error e, s)
  | halt, _ => none
  | read k, s => run (k s.view) s
  | lock l k, s => run k (s.hold l)
  | tryLock l k, s => run (k true) (s.hold l)
  | write w k, s => run k (s.push w)
  | fresh k, s => run (k s.names) s.drawn
  | commit k, s => run k s.committed
  | rollback k, s => run k s.rolledBack
  | ask q k, s => run (k (ans s.asked q)) s.answered

variable {ans}

theorem run_bind (p : Prog D W L R ε α) (f : α → Prog D W L R ε β) (s : Alone D W L) :
    run ans (p >>= f) s = match run ans p s with
      | none => none
      | some (.ok a, s') => run ans (f a) s'
      | some (.error e, s') => some (.error e, s') := by
  change run ans (p.bind f) s = _
  induction p generalizing s with
  | ret a => rfl
  | fail e => rfl
  | halt => rfl
  | read k ih => exact ih _ s
  | lock l k ih => exact ih _
  | tryLock l k ih => exact ih true _
  | write w k ih => exact ih _
  | fresh k ih => exact ih _ _
  | commit k ih => exact ih _
  | rollback k ih => exact ih _
  | ask q k ih => exact ih _ _

theorem run_attempt (p : Prog D W L R ε α) (s : Alone D W L) :
    run ans p.attempt s = (run ans p s).map fun r => (.ok r.1, r.2) := by
  induction p generalizing s with
  | ret a => rfl
  | fail e => rfl
  | halt => rfl
  | read k ih => exact ih _ s
  | lock l k ih => exact ih _
  | tryLock l k ih => exact ih true _
  | write w k ih => exact ih _
  | fresh k ih => exact ih _ _
  | commit k ih => exact ih _
  | rollback k ih => exact ih _
  | ask q k ih => exact ih _ _

@[simp] theorem run_pure (a : α) (s : Alone D W L) :
    run ans (pure a : Prog D W L R ε α) s = some (.ok a, s) := rfl
@[simp] theorem run_raise (e : ε) (s : Alone D W L) :
    run ans (raise e : Prog D W L R ε α) s = some (.error e, s) := rfl
@[simp] theorem run_view (s : Alone D W L) :
    run ans (view : Prog D W L R ε D) s = some (.ok s.view, s) := rfl
@[simp] theorem run_acquire (l : L) (s : Alone D W L) :
    run ans (acquire l : Prog D W L R ε Unit) s = some (.ok (), s.hold l) := rfl
@[simp] theorem run_tryAcquire (l : L) (s : Alone D W L) :
    run ans (tryAcquire l : Prog D W L R ε Bool) s = some (.ok true, s.hold l) := rfl
@[simp] theorem run_emit (w : W) (s : Alone D W L) :
    run ans (emit w : Prog D W L R ε Unit) s = some (.ok (), s.push w) := rfl
@[simp] theorem run_draw (s : Alone D W L) :
    run ans (draw : Prog D W L R ε ℕ) s = some (.ok s.names, s.drawn) := rfl
@[simp] theorem run_query (q : Q) (s : Alone D W L) :
    run ans (query q : Prog D W L R ε (R q)) s = some (.ok (ans s.asked q), s.answered) := rfl

theorem run_transaction (p : Prog D W L R ε α) (s : Alone D W L) :
    run ans (transaction p) s = match run ans p s with
      | none => none
      | some (.ok a, s') => some (.ok a, s'.committed)
      | some (.error e, s') => some (.error e, s'.rolledBack) := by
  unfold transaction
  rw [run_bind, run_attempt]
  cases run ans p s with
  | none => rfl
  | some r =>
    obtain ⟨r, s'⟩ := r
    cases r <;> rfl

/-- A chain of successful runs. -/
theorem run_ok {p : Prog D W L R ε α} {f : α → Prog D W L R ε β} {s s' : Alone D W L} {a : α}
    (h : run ans p s = some (.ok a, s')) : run ans (p >>= f) s = run ans (f a) s' := by
  rw [run_bind, h]

theorem run_error {p : Prog D W L R ε α} {f : α → Prog D W L R ε β} {s s' : Alone D W L} {e : ε}
    (h : run ans p s = some (.error e, s')) : run ans (p >>= f) s = some (.error e, s') := by
  rw [run_bind, h]

/-! ### Runs that return -/

/-- The program returns, in a state as `K` says. -/
def Yields (ans : ℕ → (q : Q) → R q) (p : Prog D W L R ε α) (s : Alone D W L)
    (K : α → Alone D W L → Prop) : Prop :=
  ∃ a s', run ans p s = some (.ok a, s') ∧ K a s'

variable {p : Prog D W L R ε α} {s : Alone D W L} {K : α → Alone D W L → Prop}

theorem yields_pure {a : α} (h : K a s) : Yields ans (pure a : Prog D W L R ε α) s K :=
  ⟨a, s, rfl, h⟩

theorem Yields.bind {f : α → Prog D W L R ε β} {Last : β → Alone D W L → Prop}
    (hp : Yields ans p s K) (hf : ∀ a s', K a s' → Yields ans (f a) s' Last) :
    Yields ans (p >>= f) s Last := by
  obtain ⟨a, s', hrun, ha⟩ := hp
  obtain ⟨b, s'', hrun', hb⟩ := hf a s' ha
  exact ⟨b, s'', (run_ok hrun).trans hrun', hb⟩

theorem Yields.mono {K' : α → Alone D W L → Prop} (hp : Yields ans p s K)
    (h : ∀ a s', K a s' → K' a s') : Yields ans p s K' := by
  obtain ⟨a, s', hrun, ha⟩ := hp
  exact ⟨a, s', hrun, h a s' ha⟩

theorem yields_view {f : D → Prog D W L R ε β} {Last : β → Alone D W L → Prop}
    (h : Yields ans (f s.view) s Last) : Yields ans (view >>= f) s Last := h

theorem yields_acquire {l : L} {f : Unit → Prog D W L R ε β} {Last : β → Alone D W L → Prop}
    (h : Yields ans (f ()) (s.hold l) Last) : Yields ans (acquire l >>= f) s Last := h

theorem yields_emit {w : W} {f : Unit → Prog D W L R ε β} {Last : β → Alone D W L → Prop}
    (h : Yields ans (f ()) (s.push w) Last) : Yields ans (emit w >>= f) s Last := h

theorem yields_draw {f : ℕ → Prog D W L R ε β} {Last : β → Alone D W L → Prop}
    (h : Yields ans (f s.names) s.drawn Last) : Yields ans (draw >>= f) s Last := h

theorem yields_query {q : Q} {f : R q → Prog D W L R ε β} {Last : β → Alone D W L → Prop}
    (h : Yields ans (f (ans s.asked q)) s.answered Last) : Yields ans (query q >>= f) s Last := h

theorem Yields.transaction (hp : Yields ans p s fun a s' => K a s'.committed) :
    Yields ans (transaction p) s K := by
  obtain ⟨a, s', hrun, ha⟩ := hp
  refine ⟨a, s'.committed, ?_, ha⟩
  rw [run_transaction, hrun]

/-- The rule of a loop whose every round returns. -/
theorem yields_forEach {I : List γ → Alone D W L → Prop} {f : γ → Prog D W L R ε Unit}
    (done : List γ) {xs : List γ} (hs : I done s)
    (h : ∀ done x s, x ∈ xs → I done s → Yields ans (f x) s fun _ => I (done ++ [x])) :
    Yields ans (forEach f xs) s fun _ => I (done ++ xs) := by
  induction xs generalizing done s with
  | nil => exact yields_pure (by rwa [List.append_nil])
  | cons x xs ih =>
    refine (h done x s List.mem_cons_self hs).bind fun _ s' hs' => ?_
    have hrest := ih (done ++ [x]) hs' fun done y s hy => h done y s (List.mem_cons_of_mem _ hy)
    refine hrest.mono fun _ s'' hs'' => ?_
    rwa [List.append_assoc] at hs''

theorem yields_collect {I : List γ → Alone D W L → Prop} {f : γ → Prog D W L R ε (Option β)}
    (done : List γ) {xs : List γ} (hs : I done s)
    (h : ∀ done x s, x ∈ xs → I done s → Yields ans (f x) s fun _ => I (done ++ [x])) :
    Yields ans (collect f xs) s fun _ => I (done ++ xs) := by
  induction xs generalizing done s with
  | nil => exact yields_pure (by rwa [List.append_nil])
  | cons x xs ih =>
    refine (h done x s List.mem_cons_self hs).bind fun _ s' hs' => ?_
    have hrest := ih (done ++ [x]) hs' fun done y s hy => h done y s (List.mem_cons_of_mem _ hy)
    refine hrest.bind fun _ s'' hs'' => yields_pure ?_
    rwa [List.append_assoc] at hs''

/-! ### Runs that end -/

/-- The program returns, in a state as `K` says, or it raises, in a state as `E` says. -/
def Ends (ans : ℕ → (q : Q) → R q) (p : Prog D W L R ε α) (s : Alone D W L)
    (K : α → Alone D W L → Prop) (E : Alone D W L → Prop) : Prop :=
  (∃ a s', run ans p s = some (.ok a, s') ∧ K a s') ∨ ∃ e s', run ans p s = some (.error e, s') ∧ E s'

variable {E : Alone D W L → Prop}

theorem Yields.ends (h : Yields ans p s K) : Ends ans p s K E := Or.inl h

theorem ends_pure {a : α} (h : K a s) : Ends ans (pure a : Prog D W L R ε α) s K E :=
  Or.inl ⟨a, s, rfl, h⟩

theorem ends_raise {e : ε} (h : E s) : Ends ans (raise e : Prog D W L R ε α) s K E :=
  Or.inr ⟨e, s, rfl, h⟩

theorem Ends.bind {f : α → Prog D W L R ε β} {Last : β → Alone D W L → Prop}
    (hp : Ends ans p s K E) (hf : ∀ a s', K a s' → Ends ans (f a) s' Last E) :
    Ends ans (p >>= f) s Last E := by
  obtain ⟨a, s', hrun, ha⟩ | ⟨e, s', hrun, he⟩ := hp
  · obtain ⟨b, s'', hrun', hb⟩ | ⟨e, s'', hrun', he⟩ := hf a s' ha
    · exact Or.inl ⟨b, s'', (run_ok hrun).trans hrun', hb⟩
    · exact Or.inr ⟨e, s'', (run_ok hrun).trans hrun', he⟩
  · exact Or.inr ⟨e, s', run_error hrun, he⟩

theorem Ends.mono {K' : α → Alone D W L → Prop} {E' : Alone D W L → Prop} (hp : Ends ans p s K E)
    (h : ∀ a s', K a s' → K' a s') (he : ∀ s', E s' → E' s') : Ends ans p s K' E' := by
  obtain ⟨a, s', hrun, ha⟩ | ⟨e, s', hrun, hs'⟩ := hp
  · exact Or.inl ⟨a, s', hrun, h a s' ha⟩
  · exact Or.inr ⟨e, s', hrun, he s' hs'⟩

theorem ends_view {f : D → Prog D W L R ε β} {Last : β → Alone D W L → Prop}
    (h : Ends ans (f s.view) s Last E) : Ends ans (view >>= f) s Last E := h

theorem ends_query {q : Q} {f : R q → Prog D W L R ε β} {Last : β → Alone D W L → Prop}
    (h : Ends ans (f (ans s.asked q)) s.answered Last E) : Ends ans (query q >>= f) s Last E := h

/-- What a run did is what `Ends` says. -/
theorem Ends.outcome (h : Ends ans p s K E) {r : Except ε α} {s' : Alone D W L}
    (hrun : run ans p s = some (r, s')) : (∃ a, r = .ok a ∧ K a s') ∨ E s' := by
  obtain ⟨a, s'', hrun', ha⟩ | ⟨e, s'', hrun', he⟩ := h
  · rw [hrun] at hrun'
    cases hrun'
    exact Or.inl ⟨a, rfl, ha⟩
  · rw [hrun] at hrun'
    cases hrun'
    exact Or.inr he

/-! ### What runs keep -/

/-- What no write of a program undoes holds of all it commits. -/
theorem run_keeps {O : (q : Q) → R q → Prop} {S : W → Prop} {A : Q → Prop} {K : D → Prop}
    (hans : ∀ n q, O q (ans n q)) (hK : ∀ w, S w → ∀ d, K d → K (Store.apply w d))
    {p : Prog D W L R ε α} (hp : p.Emits O S A) {s s' : Alone D W L} {r : Except ε α}
    (hdb : K s.db) (hview : K s.view) (hrun : run ans p s = some (r, s')) : K s'.db ∧ K s'.view := by
  induction p generalizing s with
  | ret a => cases hrun; exact ⟨hdb, hview⟩
  | fail e => cases hrun; exact ⟨hdb, hview⟩
  | halt => cases hrun
  | read k ih => exact ih _ (hp _) hdb hview hrun
  | lock l k ih => exact ih (s := s.hold l) hp hdb hview hrun
  | tryLock l k ih => exact ih true (s := s.hold l) (hp true) hdb hview hrun
  | write w k ih =>
    have hpush : K (s.push w).view := by
      rw [Alone.push_view]
      exact hK w hp.1 _ hview
    exact ih (s := s.push w) hp.2 hdb hpush hrun
  | fresh k ih => exact ih _ (s := s.drawn) (hp _) hdb hview hrun
  | commit k ih => exact ih (s := s.committed) hp hview hview hrun
  | rollback k ih => exact ih (s := s.rolledBack) hp hdb hdb hrun
  | ask q k ih => exact ih _ (s := s.answered) (hp.2 _ (hans _ _)) hdb hview hrun

theorem run_names {p : Prog D W L R ε α} {s s' : Alone D W L} {r : Except ε α}
    (hrun : run ans p s = some (r, s')) : s.names ≤ s'.names := by
  induction p generalizing s with
  | ret a => cases hrun; exact Nat.le_refl _
  | fail e => cases hrun; exact Nat.le_refl _
  | halt => cases hrun
  | read k ih => exact ih _ hrun
  | lock l k ih => exact ih (s := s.hold l) hrun
  | tryLock l k ih => exact ih true (s := s.hold l) hrun
  | write w k ih => exact ih (s := s.push w) hrun
  | fresh k ih => exact Nat.le_trans (Nat.le_succ _) (ih _ (s := s.drawn) hrun)
  | commit k ih => exact ih (s := s.committed) hrun
  | rollback k ih => exact ih (s := s.rolledBack) hrun
  | ask q k ih => exact ih _ (s := s.answered) hrun

/-- A program that returns, with what holds of its run. -/
theorem Yields.with_run (hp : Yields ans p s K) {K' : Alone D W L → Prop}
    (h : ∀ a s', run ans p s = some (.ok a, s') → K' s') :
    Yields ans p s fun a s' => K a s' ∧ K' s' := by
  obtain ⟨a, s', hrun, ha⟩ := hp
  exact ⟨a, s', hrun, ha, h a s' hrun⟩

end Prog

namespace Protocol
open Prog
variable {P : Protocol ι D L} {O : (q : Q) → R q → Prop} {i : ι} {ans : ℕ → (q : Q) → R q}

/-- What a session may start alone from: the invariant, and names that nobody has drawn. -/
structure Undrawn (P : Protocol ι D L) (s : Alone D W L) : Prop where
  inv : P.Inv s.db
  owned : ∀ n ∈ s.ctx.owned, n < s.names
  unused : ∀ n, s.names ≤ n → P.Unused n s.db

/-- The protocol of a session that has no others. -/
def solo (D L : Type) : Protocol Unit D L where
  Inv _ := True
  Rely _ _ _ d d' := d' = d
  rely_refl _ _ _ _ := rfl
  rely_trans _ _ _ _ _ _ h h' := h'.trans h

theorem solo_env {c : Ctx W L} {d d' : D} (h : (solo D L).Env () c d d') : d' = d := h.1

theorem solo_guar (c : Ctx W L) (d d' : D) : (solo D L).Guar () c d d' :=
  ⟨trivial, fun _ hj => absurd rfl hj, fun _ _ _ => trivial, trivial⟩

theorem solo_undrawn (d : D) (names : ℕ) :
    Undrawn (solo D L) ({ db := d, names := names } : Alone D W L) :=
  ⟨trivial, fun _ hn => absurd hn List.not_mem_nil, fun _ _ => trivial⟩

theorem run_of_wp (hans : ∀ n q, O q (ans n q)) {p : Prog D W L R ε α}
    {K : Except ε α → Ctx W L → D → Prop} {s s' : Alone D W L} {r : Except ε α}
    (hs : Undrawn P s) (h : P.wp O i p K s.ctx s.db) (hrun : run ans p s = some (r, s')) :
    K r s'.ctx s'.db ∧ Undrawn P s' := by
  induction p generalizing s with
  | ret a => cases hrun; exact ⟨h, hs⟩
  | fail e => cases hrun; exact ⟨h, hs⟩
  | halt => cases hrun
  | read k ih => exact ih _ hs (h s.db (env_refl hs.inv)) hrun
  | lock l k ih => exact ih (s := s.hold l) ⟨hs.inv, hs.owned, hs.unused⟩ (h s.db (env_refl hs.inv)) hrun
  | tryLock l k ih => exact ih true (s := s.hold l) ⟨hs.inv, hs.owned, hs.unused⟩ (h s.db (env_refl hs.inv)).1 hrun
  | write w k ih => exact ih (s := s.push w) ⟨hs.inv, hs.owned, hs.unused⟩ h hrun
  | fresh k ih =>
    have hnew : s.names ∉ s.ctx.owned := fun hm => absurd (hs.owned _ hm) (Nat.lt_irrefl _)
    have hun := hs.unused s.names (Nat.le_refl _)
    refine ih s.names (s := s.drawn) ⟨hs.inv, fun n hn => ?_, fun n hn => ?_⟩
      (h s.db s.names (env_refl hs.inv) hnew hun) hrun
    · rcases List.mem_cons.mp hn with rfl | hn
      · exact Nat.lt_succ_self _
      · exact Nat.lt_succ_of_lt (hs.owned n hn)
    · exact hs.unused n (Nat.le_of_succ_le hn)
  | commit k ih =>
    obtain ⟨hg, hk⟩ := h s.db (env_refl hs.inv)
    refine ih (s := s.committed) ⟨hg.inv, hs.owned, fun n hn => ?_⟩ hk hrun
    refine hg.unused n (fun hm => ?_) (hs.unused n hn)
    exact absurd (hs.owned n hm) (Nat.not_lt.mpr hn)
  | rollback k ih =>
    exact ih (s := s.rolledBack) ⟨hs.inv, hs.owned, hs.unused⟩ (h s.db (env_refl hs.inv)) hrun
  | ask q k ih => exact ih _ (s := s.answered) ⟨hs.inv, hs.owned, hs.unused⟩ (h _ (hans _ _)) hrun

end Protocol
end Quantive.ReadCommitted
