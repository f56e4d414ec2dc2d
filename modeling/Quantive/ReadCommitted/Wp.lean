import Quantive.ReadCommitted.World

/-!
# Rely-guarantee logic for sessions

A protocol names the invariant of the committed database and what the other
sessions may do to it while a session holds certain locks and owns certain fresh
names. `wp` is the weakest precondition of a program under interference of the
others at every statement; a commit must re-establish the invariant and stay within
what every other session relies on. `Protocol.sound` carries the invariant to every
reachable world.
-/

set_option linter.unusedSectionVars false

namespace Quantive.ReadCommitted
variable {D W L Q ι : Type} {R : Q → Type} {ε α β : Type}

/-- `Rely i held owned d d'`: while session `i` holds `held` and owns `owned`, the others
may take the committed database from `d` to `d'`. `Unused n d`: the name `n` is not in `d`.
`Commit i held owned d d'`: session `i` may do so itself. -/
structure Protocol (ι D L : Type) where
  Inv : D → Prop
  Rely : ι → List L → List ℕ → D → D → Prop
  Unused : ℕ → D → Prop := fun _ _ => True
  Commit : ι → List L → List ℕ → D → D → Prop := fun _ _ _ _ _ => True
  rely_refl : ∀ i h o d, Rely i h o d d
  rely_trans : ∀ i h o d d' d'', Rely i h o d d' → Rely i h o d' d'' → Rely i h o d d''
  commit_refl : ∀ i h o d, Commit i h o d d := by intros; trivial

namespace Protocol
variable [Store D W] (P : Protocol ι D L)

/-- What session `i` may find after the others ran, the invariant included. -/
def Env (i : ι) (c : Ctx W L) (d d' : D) : Prop := P.Rely i c.held c.owned d d' ∧ P.Inv d'

/-- What session `i` promises the others about a commit that takes `d` to `d'`. -/
structure Guar (i : ι) (c : Ctx W L) (d d' : D) : Prop where
  inv : P.Inv d'
  rely : ∀ j, j ≠ i → ∀ (held : List L) (owned : List ℕ), (∀ l ∈ held, l ∉ c.held) →
    (∀ n ∈ owned, n ∉ c.owned) → P.Rely j held owned d d'
  unused : ∀ n, n ∉ c.owned → P.Unused n d → P.Unused n d'
  commit : P.Commit i c.held c.owned d d'

variable (O : (q : Q) → R q → Prop) (i : ι)

/-- Every run of the program from context `c` and database `d`, whatever the others do in
between and whatever the surroundings answer within `O`, commits only within `Guar` and ends
in `K`. -/
def wp : Prog D W L R ε α → (Except ε α → Ctx W L → D → Prop) → Ctx W L → D → Prop
  | .ret a, K, c, d => K (.ok a) c d
  | .fail e, K, c, d => K (.error e) c d
  | .halt, _, _, _ => True
  | .read k, K, c, d => ∀ d', P.Env i c d d' → wp (k (c.view d')) K c d'
  | .lock l k, K, c, d => ∀ d', P.Env i c d d' → wp k K (c.hold l) d'
  | .tryLock l k, K, c, d => ∀ d', P.Env i c d d' →
      wp (k true) K (c.hold l) d' ∧ wp (k false) K c d'
  | .write w k, K, c, d => wp k K (c.push w) d
  | .fresh k, K, c, d => ∀ d' n, P.Env i c d d' → n ∉ c.owned → P.Unused n d' →
      wp (k n) K (c.own n) d'
  | .commit k, K, c, d => ∀ d', P.Env i c d d' →
      P.Guar i c d' (c.view d') ∧ wp k K c.release (c.view d')
  | .rollback k, K, c, d => ∀ d', P.Env i c d d' → wp k K c.release d'
  | .ask q k, K, c, d => ∀ r, O q r → wp (k r) K c d

variable {P O i}

theorem wp_bind {p : Prog D W L R ε α} {f : α → Prog D W L R ε β}
    {K : Except ε β → Ctx W L → D → Prop} {c : Ctx W L} {d : D}
    (h : P.wp O i p (fun r c d => match r with
      | .ok a => P.wp O i (f a) K c d
      | .error e => K (.error e) c d) c d) : P.wp O i (p >>= f) K c d := by
  change P.wp O i (p.bind f) K c d
  induction p generalizing c d with
  | ret a => exact h
  | fail e => exact h
  | halt => exact h
  | read k ih => exact fun d' hd => ih _ (h d' hd)
  | lock l k ih => exact fun d' hd => ih (h d' hd)
  | tryLock l k ih => exact fun d' hd => ⟨ih _ (h d' hd).1, ih _ (h d' hd).2⟩
  | write w k ih => exact ih h
  | fresh k ih => exact fun d' n hd hn hu => ih _ (h d' n hd hn hu)
  | commit k ih => exact fun d' hd => ⟨(h d' hd).1, ih (h d' hd).2⟩
  | rollback k ih => exact fun d' hd => ih (h d' hd)
  | ask q k ih => exact fun r hr => ih _ (h r hr)

theorem wp_attempt {p : Prog D W L R ε α} {K : Except ε (Except ε α) → Ctx W L → D → Prop}
    {c : Ctx W L} {d : D} (h : P.wp O i p (fun r c d => K (.ok r) c d) c d) :
    P.wp O i p.attempt K c d := by
  induction p generalizing c d with
  | ret a => exact h
  | fail e => exact h
  | halt => exact h
  | read k ih => exact fun d' hd => ih _ (h d' hd)
  | lock l k ih => exact fun d' hd => ih (h d' hd)
  | tryLock l k ih => exact fun d' hd => ⟨ih _ (h d' hd).1, ih _ (h d' hd).2⟩
  | write w k ih => exact ih h
  | fresh k ih => exact fun d' n hd hn hu => ih _ (h d' n hd hn hu)
  | commit k ih => exact fun d' hd => ⟨(h d' hd).1, ih (h d' hd).2⟩
  | rollback k ih => exact fun d' hd => ih (h d' hd)
  | ask q k ih => exact fun r hr => ih _ (h r hr)

theorem wp_mono {p : Prog D W L R ε α} {K K' : Except ε α → Ctx W L → D → Prop}
    {c : Ctx W L} {d : D} (h : P.wp O i p K c d) (hK : ∀ r c d, K r c d → K' r c d) :
    P.wp O i p K' c d := by
  induction p generalizing c d with
  | ret a => exact hK _ _ _ h
  | fail e => exact hK _ _ _ h
  | halt => trivial
  | read k ih => exact fun d' hd => ih _ (h d' hd)
  | lock l k ih => exact fun d' hd => ih (h d' hd)
  | tryLock l k ih => exact fun d' hd => ⟨ih _ (h d' hd).1, ih _ (h d' hd).2⟩
  | write w k ih => exact ih h
  | fresh k ih => exact fun d' n hd hn hu => ih _ (h d' n hd hn hu)
  | commit k ih => exact fun d' hd => ⟨(h d' hd).1, ih (h d' hd).2⟩
  | rollback k ih => exact fun d' hd => ih (h d' hd)
  | ask q k ih => exact fun r hr => ih _ (h r hr)

theorem wp_and {p : Prog D W L R ε α} {K K' : Except ε α → Ctx W L → D → Prop}
    {c : Ctx W L} {d : D} (h : P.wp O i p K c d) (h' : P.wp O i p K' c d) :
    P.wp O i p (fun r c d => K r c d ∧ K' r c d) c d := by
  induction p generalizing c d with
  | ret a => exact ⟨h, h'⟩
  | fail e => exact ⟨h, h'⟩
  | halt => trivial
  | read k ih => exact fun d' hd => ih _ (h d' hd) (h' d' hd)
  | lock l k ih => exact fun d' hd => ih (h d' hd) (h' d' hd)
  | tryLock l k ih =>
    exact fun d' hd => ⟨ih _ (h d' hd).1 (h' d' hd).1, ih _ (h d' hd).2 (h' d' hd).2⟩
  | write w k ih => exact ih h h'
  | fresh k ih => exact fun d' n hd hn hu => ih _ (h d' n hd hn hu) (h' d' n hd hn hu)
  | commit k ih => exact fun d' hd => ⟨(h d' hd).1, ih (h d' hd).2 (h' d' hd).2⟩
  | rollback k ih => exact fun d' hd => ih (h d' hd) (h' d' hd)
  | ask q k ih => exact fun r hr => ih _ (h r hr) (h' r hr)

theorem env_refl {c : Ctx W L} {d : D} (hd : P.Inv d) : P.Env i c d d :=
  ⟨P.rely_refl _ _ _ _, hd⟩

theorem env_trans {c : Ctx W L} {d d' d'' : D} (h : P.Env i c d d') (h' : P.Env i c d' d'') :
    P.Env i c d d'' := ⟨P.rely_trans _ _ _ _ _ _ h.1 h'.1, h'.2⟩

/-! ### From the sessions' preconditions to every reachable world -/

/-- Nothing is asked of a session at rest. -/
def Rest : Except ε Unit → Ctx W L → D → Prop := fun _ _ _ => True

/- Every statement reads the database after the others ran, so moving the start of a program
along `Env` changes nothing. -/
theorem wp_env {p : Prog D W L R ε Unit} {c : Ctx W L} {d d' : D} (h : P.wp O i p Rest c d)
    (he : P.Env i c d d') : P.wp O i p Rest c d' := by
  induction p generalizing c with
  | ret a => trivial
  | fail e => trivial
  | halt => trivial
  | read k ih => exact fun d'' hd => h d'' (env_trans he hd)
  | lock l k ih => exact fun d'' hd => h d'' (env_trans he hd)
  | tryLock l k ih => exact fun d'' hd => h d'' (env_trans he hd)
  | write w k ih => exact ih h he
  | fresh k ih => exact fun d'' n hd => h d'' n (env_trans he hd)
  | commit k ih => exact fun d'' hd => h d'' (env_trans he hd)
  | rollback k ih => exact fun d'' hd => h d'' (env_trans he hd)
  | ask q k ih => exact fun r hr => ih r (h r hr) he

/-- No two sessions share an element. -/
def Apart {X : Type} (f : ι → List X) : Prop := ∀ i j, i ≠ j → ∀ x ∈ f i, x ∉ f j

theorem Apart.update [DecidableEq ι] {X : Type} {f : ι → List X} (hf : Apart f) {i : ι}
    {xs : List X} (hx : ∀ x ∈ xs, ∀ j, j ≠ i → x ∉ f j) : Apart (Function.update f i xs) := by
  intro j k hjk x hm
  by_cases hj : j = i
  · subst hj
    rw [Function.update_self] at hm
    rw [Function.update_of_ne (Ne.symm hjk)]
    exact hx x hm k (Ne.symm hjk)
  · rw [Function.update_of_ne hj] at hm
    by_cases hk : k = i
    · subst hk
      rw [Function.update_self]
      exact fun hs => hx x hs j hj hm
    · rw [Function.update_of_ne hk]
      exact hf j k hjk x hm

/-- What holds in every reachable world: the invariant, exclusive locks and names, and every
session's precondition for the rest of its program. -/
structure Ok (S : System ι D W L R ε) (P : Protocol ι D L) (w : World ι D W L R ε) : Prop where
  inv : P.Inv w.db
  held : Apart fun i => (w.sessions i).ctx.held
  owned : Apart fun i => (w.sessions i).ctx.owned
  names : ∀ i, ∀ n ∈ (w.sessions i).ctx.owned, n < w.names
  unused : ∀ n, w.names ≤ n → P.Unused n w.db
  progs : ∀ i, P.wp S.oracle i (w.sessions i).prog Rest (w.sessions i).ctx w.db

/-- A session may replace its old state by one whose locks and names nobody else has when the
database moves within what the others rely on. -/
theorem Ok.update [DecidableEq ι] {S : System ι D W L R ε} {w : World ι D W L R ε} (hw : Ok S P w)
    (i : ι) (s : Session D W L R ε) (d : D) {m : ℕ} (hm : w.names ≤ m)
    (hg : P.Guar i (w.sessions i).ctx w.db d)
    (hh : ∀ l ∈ s.ctx.held, ∀ j, j ≠ i → l ∉ (w.sessions j).ctx.held)
    (ho : ∀ n ∈ s.ctx.owned, n ∈ (w.sessions i).ctx.owned ∨ w.names ≤ n ∧ n < m)
    (hp : P.wp S.oracle i s.prog Rest s.ctx d) :
    Ok S P ⟨d, m, Function.update w.sessions i s⟩ := by
  have others : ∀ n ∈ s.ctx.owned, ∀ j, j ≠ i → n ∉ (w.sessions j).ctx.owned := by
    intro n hn j hj hnj
    rcases ho n hn with h | h
    · exact hw.owned i j (Ne.symm hj) n h hnj
    · exact absurd (hw.names j n hnj) (by omega)
  have field : ∀ {X : Type} (f : Session D W L R ε → List X),
      (fun j => f (Function.update w.sessions i s j)) =
        Function.update (fun j => f (w.sessions j)) i (f s) := by
    intro X f
    funext j
    by_cases hj : j = i
    · subst hj; simp
    · simp [hj]
  constructor
  · exact hg.inv
  · have := hw.held.update hh
    rwa [← field (fun t => t.ctx.held)] at this
  · have := hw.owned.update others
    rwa [← field (fun t => t.ctx.owned)] at this
  · intro j n hn
    simp only [Function.update_apply] at hn ⊢
    by_cases hj : j = i
    · rw [if_pos hj] at hn
      rcases ho n hn with h | h
      · exact Nat.lt_of_lt_of_le (hw.names i n h) hm
      · exact h.2
    · rw [if_neg hj] at hn
      exact Nat.lt_of_lt_of_le (hw.names j n hn) hm
  · intro n hn
    have hn' : w.names ≤ n := Nat.le_trans hm hn
    exact hg.unused n (fun ho => absurd (hw.names i n ho) (by omega)) (hw.unused n hn')
  · intro j
    simp only [Function.update_apply]
    by_cases hj : j = i
    · subst hj
      rw [if_pos rfl]
      exact hp
    · rw [if_neg hj]
      have hr : P.Rely j (w.sessions j).ctx.held (w.sessions j).ctx.owned w.db d :=
        hg.rely j hj _ _ (fun l hl => hw.held j i hj l hl) (fun n hn => hw.owned j i hj n hn)
      exact wp_env (hw.progs j) ⟨hr, hg.inv⟩

/-- A step that leaves the database alone promises nothing new. -/
theorem guar_same {c : Ctx W L} {d : D} (hd : P.Inv d) : P.Guar i c d d :=
  ⟨hd, fun j _ _ _ _ _ => P.rely_refl j _ _ _, fun _ _ h => h, P.commit_refl i _ _ d⟩

/-- What is assumed of the runs: a session starts with a program that is right from every
database of the invariant. -/
def Sound (S : System ι D W L R ε) (P : Protocol ι D L) : Prop :=
  ∀ i p d, S.programs i p → P.Inv d → P.wp S.oracle i p Rest {} d

theorem Ok.step [DecidableEq ι] {S : System ι D W L R ε} (hS : Sound S P)
    {w w' : World ι D W L R ε} {l : Label ι} (hw : Ok S P w) (hs : S.Step w l w') :
    Ok S P w' := by
  cases hs with
  | @start i p _ hp =>
    exact hw.update i _ _ (Nat.le_refl _) (guar_same hw.inv) (by simp) (by simp)
      (hS i p _ hp hw.inv)
  | @crash i =>
    exact hw.update i _ _ (Nat.le_refl _) (guar_same hw.inv) (by simp) (by simp) trivial
  | @run i free ans d n s hf hans hadv =>
    have hp := hw.progs i
    have same : P.Env i (w.sessions i).ctx w.db w.db := env_refl hw.inv
    have old : ∀ l ∈ (w.sessions i).ctx.held, ∀ j, j ≠ i → l ∉ (w.sessions j).ctx.held :=
      fun l hl j hj => hw.held i j (Ne.symm hj) l hl
    have more : ∀ l, free l = true → ∀ m ∈ ((w.sessions i).ctx.hold l).held, ∀ j, j ≠ i →
        m ∉ (w.sessions j).ctx.held := by
      intro l hl m hm j hj
      rcases List.mem_cons.mp hm with rfl | hm
      · exact (hf m).mp hl j hj
      · exact old m hm j hj
    unfold System.Answers at hans
    rcases hsess : w.sessions i with ⟨q, c⟩
    rw [hsess] at hadv hp same old more hans
    have kept : ∀ n ∈ c.owned, n ∈ (w.sessions i).ctx.owned ∨ w.names ≤ n ∧ n < w.names :=
      fun n hn => Or.inl (by rw [hsess]; exact hn)
    cases q with
    | ret a => cases hadv
    | fail e => cases hadv
    | halt => cases hadv
    | read k =>
      cases hadv
      exact hw.update i _ _ (Nat.le_refl _) (guar_same hw.inv) old kept (hp _ same)
    | lock l k =>
      by_cases hl : free l
      · simp only [advance, hl, if_true, Option.some.injEq] at hadv
        cases hadv
        exact hw.update i _ _ (Nat.le_refl _) (guar_same hw.inv) (more l hl) kept (hp _ same)
      · simp [advance, hl] at hadv
    | tryLock l k =>
      by_cases hl : free l
      · simp only [advance, hl, if_true, Option.some.injEq] at hadv
        cases hadv
        exact hw.update i _ _ (Nat.le_refl _) (guar_same hw.inv) (more l hl) kept (hp _ same).1
      · simp only [advance, hl, Bool.false_eq_true, if_false, Option.some.injEq] at hadv
        cases hadv
        exact hw.update i _ _ (Nat.le_refl _) (guar_same hw.inv) old kept (hp _ same).2
    | write v k =>
      cases hadv
      exact hw.update i _ _ (Nat.le_refl _) (guar_same hw.inv) old kept hp
    | fresh k =>
      cases hadv
      have new : w.names ∉ c.owned := by
        intro hn
        have := hw.names i w.names (by rw [hsess]; exact hn)
        omega
      refine hw.update i _ _ (Nat.le_succ _) (guar_same hw.inv) old ?_
        (hp _ _ same new (hw.unused _ (Nat.le_refl _)))
      intro n hn
      rcases List.mem_cons.mp hn with rfl | hn
      · exact Or.inr ⟨Nat.le_refl _, Nat.lt_succ_self _⟩
      · exact Or.inl (by rw [hsess]; exact hn)
    | commit k =>
      cases hadv
      exact hw.update i _ _ (Nat.le_refl _) (by rw [hsess]; exact (hp _ same).1) (by simp) kept
        (hp _ same).2
    | rollback k =>
      cases hadv
      exact hw.update i _ _ (Nat.le_refl _) (guar_same hw.inv) (by simp) kept (hp _ same)
    | ask r k =>
      cases hadv
      exact hw.update i _ _ (Nat.le_refl _) (guar_same hw.inv) old kept (hp _ hans)

/-- The rule for runs: what the protocol asks of the initial database and of every program
gives its invariant in every reachable world. -/
theorem sound [DecidableEq ι] {S : System ι D W L R ε} (hS : Sound S P)
    (hi : ∀ d, S.init d → P.Inv d ∧ ∀ n, P.Unused n d) :
    S.Invariant (Ok S P) := by
  intro w hr
  induction hr with
  | @init w h =>
    obtain ⟨hd, hn, hses⟩ := h
    obtain ⟨hinv, hun⟩ := hi _ hd
    exact {
      inv := hinv
      held := fun i j _ l hl => by simp [hses] at hl
      owned := fun i j _ n hn => by simp [hses] at hn
      names := fun i n hn => by simp [hses] at hn
      unused := fun n _ => hun n
      progs := fun i => by rw [hses]; trivial }
  | step hr hs ih => exact ih.step hS hs

/-- A session that is about to commit may. -/
theorem Ok.commit {S : System ι D W L R ε} {w : World ι D W L R ε} (hw : Ok S P w) {i : ι}
    {k : Prog D W L R ε Unit} (hk : (w.sessions i).prog = .commit k) :
    P.Commit i (w.sessions i).ctx.held (w.sessions i).ctx.owned w.db
      ((w.sessions i).ctx.view w.db) := by
  have hp := hw.progs i
  rw [hk] at hp
  exact (hp w.db (env_refl hw.inv)).1.commit

/-- A step leaves the database alone or is a commit that its session may make. -/
theorem Ok.commit_step [DecidableEq ι] {S : System ι D W L R ε} {w w' : World ι D W L R ε}
    {l : Label ι} (hw : Ok S P w) (h : S.Step w l w') :
    w'.db = w.db ∨ ∃ i held owned, l = .run i ∧ P.Commit i held owned w.db w'.db := by
  rcases h.db_cases with hdb | ⟨i, k, hl, hk, hdb⟩
  · exact Or.inl hdb
  · exact Or.inr ⟨i, _, _, hl, hdb ▸ hw.commit hk⟩

end Protocol
end Quantive.ReadCommitted
