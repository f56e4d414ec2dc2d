import Quantive.ReadCommitted.Wp

/-!
# Triples and session invariants

`Triple J Pre p Post`: from `Pre`, under the interference the protocol allows, `p` ends in
`Post` when it returns and in `J` when it raises. A session invariant holds of a session's
context at every statement; a program whose writes it bears keeps it, and most programs
are seen to keep one from the writes they can emit alone (`Emits`).
-/

set_option linter.unusedSectionVars false

namespace Quantive.ReadCommitted
variable {D W L Q ι : Type} {R : Q → Type} {ε α β γ : Type}

/-! ### The writes of a program -/

namespace Prog

/-- Whatever it reads and as long as the answers are in `O`, the program only emits writes in `S`
and only asks questions in `A`. -/
def Emits (O : (q : Q) → R q → Prop) (S : W → Prop) (A : Q → Prop) : Prog D W L R ε α → Prop
  | ret _ => True
  | fail _ => True
  | halt => True
  | read k => ∀ d, (k d).Emits O S A
  | lock _ k => k.Emits O S A
  | tryLock _ k => ∀ b, (k b).Emits O S A
  | write w k => S w ∧ k.Emits O S A
  | fresh k => ∀ n, (k n).Emits O S A
  | commit k => k.Emits O S A
  | rollback k => k.Emits O S A
  | ask q k => A q ∧ ∀ r, O q r → (k r).Emits O S A

variable {O : (q : Q) → R q → Prop} {S : W → Prop} {A : Q → Prop}

theorem Emits.bind {p : Prog D W L R ε α} {f : α → Prog D W L R ε β} (hp : p.Emits O S A)
    (hf : ∀ a, (f a).Emits O S A) : (p >>= f).Emits O S A := by
  change (p.bind f).Emits O S A
  induction p with
  | ret a => exact hf a
  | fail e => trivial
  | halt => trivial
  | read k ih => exact fun d => ih d (hp d)
  | lock l k ih => exact ih hp
  | tryLock l k ih => exact fun b => ih b (hp b)
  | write w k ih => exact ⟨hp.1, ih hp.2⟩
  | fresh k ih => exact fun n => ih n (hp n)
  | commit k ih => exact ih hp
  | rollback k ih => exact ih hp
  | ask q k ih => exact ⟨hp.1, fun r hr => ih r (hp.2 r hr)⟩

theorem Emits.attempt {p : Prog D W L R ε α} (hp : p.Emits O S A) : p.attempt.Emits O S A := by
  induction p with
  | ret a => trivial
  | fail e => trivial
  | halt => trivial
  | read k ih => exact fun d => ih d (hp d)
  | lock l k ih => exact ih hp
  | tryLock l k ih => exact fun b => ih b (hp b)
  | write w k ih => exact ⟨hp.1, ih hp.2⟩
  | fresh k ih => exact fun n => ih n (hp n)
  | commit k ih => exact ih hp
  | rollback k ih => exact ih hp
  | ask q k ih => exact ⟨hp.1, fun r hr => ih r (hp.2 r hr)⟩

@[simp] theorem emits_pure (a : α) : (pure a : Prog D W L R ε α).Emits O S A := trivial
@[simp] theorem emits_raise (e : ε) : (raise e : Prog D W L R ε α).Emits O S A := trivial
@[simp] theorem emits_stuck : (stuck : Prog D W L R ε α).Emits O S A := trivial
@[simp] theorem emits_view : (view : Prog D W L R ε D).Emits O S A := fun _ => trivial
@[simp] theorem emits_acquire (l : L) : (acquire l : Prog D W L R ε Unit).Emits O S A := trivial
@[simp] theorem emits_tryAcquire (l : L) : (tryAcquire l : Prog D W L R ε Bool).Emits O S A :=
  fun _ => trivial
@[simp] theorem emits_emit (w : W) : (emit w : Prog D W L R ε Unit).Emits O S A ↔ S w :=
  ⟨fun h => h.1, fun h => ⟨h, trivial⟩⟩
@[simp] theorem emits_draw : (draw : Prog D W L R ε ℕ).Emits O S A := fun _ => trivial
@[simp] theorem emits_commitNow : (commitNow : Prog D W L R ε Unit).Emits O S A := trivial
@[simp] theorem emits_rollbackNow : (rollbackNow : Prog D W L R ε Unit).Emits O S A := trivial
@[simp] theorem emits_query (q : Q) : (query q : Prog D W L R ε (R q)).Emits O S A ↔ A q :=
  ⟨fun h => h.1, fun h => ⟨h, fun _ _ => trivial⟩⟩

theorem Emits.transaction {p : Prog D W L R ε α} (hp : p.Emits O S A) :
    (transaction p).Emits O S A := by
  refine hp.attempt.bind fun r => ?_
  cases r with
  | ok a => exact Emits.bind emits_commitNow fun _ => trivial
  | error e => exact Emits.bind emits_rollbackNow fun _ => trivial

theorem Emits.forEach {f : γ → Prog D W L R ε Unit} {xs : List γ}
    (hf : ∀ x ∈ xs, (f x).Emits O S A) : (forEach f xs).Emits O S A := by
  induction xs with
  | nil => trivial
  | cons x xs ih =>
    exact (hf x List.mem_cons_self).bind fun _ => ih fun y hy => hf y (List.mem_cons_of_mem _ hy)

theorem Emits.collect {f : γ → Prog D W L R ε (Option β)} {xs : List γ}
    (hf : ∀ x ∈ xs, (f x).Emits O S A) : (collect f xs).Emits O S A := by
  induction xs with
  | nil => trivial
  | cons x xs ih =>
    refine (hf x List.mem_cons_self).bind fun _ => Emits.bind (ih fun y hy => ?_) fun _ => trivial
    exact hf y (List.mem_cons_of_mem _ hy)

theorem Emits.mono {T : W → Prop} {p : Prog D W L R ε α} (hp : p.Emits O S A)
    (hST : ∀ w, S w → T w) : p.Emits O T A := by
  induction p with
  | ret a => trivial
  | fail e => trivial
  | halt => trivial
  | read k ih => exact fun d => ih d (hp d)
  | lock l k ih => exact ih hp
  | tryLock l k ih => exact fun b => ih b (hp b)
  | write w k ih => exact ⟨hST w hp.1, ih hp.2⟩
  | fresh k ih => exact fun n => ih n (hp n)
  | commit k ih => exact ih hp
  | rollback k ih => exact ih hp
  | ask q k ih => exact ⟨hp.1, fun r hr => ih r (hp.2 r hr)⟩

/-- A program inside one transaction: it ends none. -/
def Open : Prog D W L R ε α → Prop
  | ret _ => True
  | fail _ => True
  | halt => True
  | read k => ∀ d, (k d).Open
  | lock _ k => k.Open
  | tryLock _ k => ∀ b, (k b).Open
  | write _ k => k.Open
  | fresh k => ∀ n, (k n).Open
  | commit _ => False
  | rollback _ => False
  | ask _ k => ∀ r, (k r).Open

theorem Open.bind {p : Prog D W L R ε α} {f : α → Prog D W L R ε β} (hp : p.Open)
    (hf : ∀ a, (f a).Open) : (p >>= f).Open := by
  change (p.bind f).Open
  induction p with
  | ret a => exact hf a
  | fail e => trivial
  | halt => trivial
  | read k ih => exact fun d => ih d (hp d)
  | lock l k ih => exact ih hp
  | tryLock l k ih => exact fun b => ih b (hp b)
  | write w k ih => exact ih hp
  | fresh k ih => exact fun n => ih n (hp n)
  | commit k ih => exact hp.elim
  | rollback k ih => exact hp.elim
  | ask q k ih => exact fun r => ih r (hp r)

theorem open_view : (view : Prog D W L R ε D).Open := fun _ => trivial
theorem open_acquire (l : L) : (acquire l : Prog D W L R ε Unit).Open := trivial
theorem open_tryAcquire (l : L) : (tryAcquire l : Prog D W L R ε Bool).Open := fun _ => trivial
theorem open_emit (w : W) : (emit w : Prog D W L R ε Unit).Open := trivial
theorem open_draw : (draw : Prog D W L R ε ℕ).Open := fun _ => trivial
theorem open_query (q : Q) : (query q : Prog D W L R ε (R q)).Open := fun _ => trivial

theorem Open.forEach {f : γ → Prog D W L R ε Unit} (hf : ∀ x, (f x).Open) (xs : List γ) :
    (forEach f xs).Open := by
  induction xs with
  | nil => trivial
  | cons x xs ih => exact (hf x).bind fun _ => ih

theorem Open.collect {f : γ → Prog D W L R ε (Option β)} (hf : ∀ x, (f x).Open) (xs : List γ) :
    (collect f xs).Open := by
  induction xs with
  | nil => trivial
  | cons x xs ih => exact (hf x).bind fun _ => ih.bind fun _ => trivial

end Prog

/-! ### Triples -/

namespace Protocol
open Prog
variable [Store D W] (P : Protocol ι D L) (O : (q : Q) → R q → Prop) (i : ι)

def Triple (J Pre : Ctx W L → D → Prop) (p : Prog D W L R ε α)
    (Post : α → Ctx W L → D → Prop) : Prop :=
  ∀ c d, Pre c d → P.wp O i p (fun r c d => match r with
    | .ok a => Post a c d
    | .error _ => J c d) c d

def Keeps (J : Ctx W L → D → Prop) (p : Prog D W L R ε α) : Prop :=
  P.Triple O i J J p fun _ => J

/-- An assertion on a session that holds whatever the session reads, locks or draws and whatever
the others do; a transaction may end at any point. -/
structure SessionInv (J : Ctx W L → D → Prop) : Prop where
  stable : ∀ c d d', J c d → P.Env i c d d' → J c d'
  hold : ∀ c d l, J c d → J (c.hold l) d
  own : ∀ c d n, J c d → n ∉ c.owned → P.Unused n d → J (c.own n) d
  commit : ∀ c d, J c d → P.Guar i c d (c.view d) ∧ J c.release (c.view d)
  rollback : ∀ c d, J c d → J c.release d

variable {P O i} {J Pre Pre' : Ctx W L → D → Prop} {p : Prog D W L R ε α}
  {Post Post' : α → Ctx W L → D → Prop}

theorem Triple.conseq (h : P.Triple O i J Pre p Post) (hpre : ∀ c d, Pre' c d → Pre c d)
    (hpost : ∀ a c d, Post a c d → Post' a c d) : P.Triple O i J Pre' p Post' := by
  intro c d hd
  refine wp_mono (h c d (hpre c d hd)) fun r c d hr => ?_
  cases r with
  | ok a => exact hpost a c d hr
  | error e => exact hr

theorem Triple.pre (h : P.Triple O i J Pre p Post) (hpre : ∀ c d, Pre' c d → Pre c d) :
    P.Triple O i J Pre' p Post :=
  h.conseq hpre fun _ _ _ hr => hr

theorem Triple.post (h : P.Triple O i J Pre p Post) (hpost : ∀ a c d, Post a c d → Post' a c d) :
    P.Triple O i J Pre p Post' :=
  h.conseq (fun _ _ hd => hd) hpost

theorem Triple.raises {J' : Ctx W L → D → Prop} (h : P.Triple O i J Pre p Post)
    (hJ : ∀ c d, J c d → J' c d) : P.Triple O i J' Pre p Post := by
  intro c d hd
  refine wp_mono (h c d hd) fun r c d hr => ?_
  cases r with
  | ok a => exact hr
  | error e => exact hJ c d hr

/-- A fact of the precondition that no state changes. -/
theorem Triple.fact {F : Prop} (h : F → P.Triple O i J Pre p Post) :
    P.Triple O i J (fun c d => F ∧ Pre c d) p Post :=
  fun c d hd => h hd.1 c d hd.2

theorem Triple.exists {X : Type} {Some : X → Ctx W L → D → Prop}
    (h : ∀ x, P.Triple O i J (Some x) p Post) :
    P.Triple O i J (fun c d => ∃ x, Some x c d) p Post :=
  fun c d ⟨x, hd⟩ => h x c d hd

/-- What two triples say of a program holds together. -/
theorem Triple.and (h : P.Triple O i J Pre p Post) (h' : P.Triple O i J Pre' p Post') :
    P.Triple O i J (fun c d => Pre c d ∧ Pre' c d) p fun a c d => Post a c d ∧ Post' a c d := by
  intro c d hd
  refine wp_mono (wp_and (h c d hd.1) (h' c d hd.2)) fun r c d hr => ?_
  cases r with
  | ok a => exact hr
  | error e => exact hr.1

theorem Triple.bind {f : α → Prog D W L R ε β} {Last : β → Ctx W L → D → Prop}
    (hp : P.Triple O i J Pre p Post) (hf : ∀ a, P.Triple O i J (Post a) (f a) Last) :
    P.Triple O i J Pre (p >>= f) Last := by
  intro c d hd
  refine wp_bind (wp_mono (hp c d hd) fun r c d hr => ?_)
  cases r with
  | ok a => exact hf a c d hr
  | error e => exact hr

/-- The rule of composition with the assertion in the middle written out. -/
theorem Triple.seq (Mid : α → Ctx W L → D → Prop) {f : α → Prog D W L R ε β}
    {Last : β → Ctx W L → D → Prop} (hp : P.Triple O i J Pre p Mid)
    (hf : ∀ a, P.Triple O i J (Mid a) (f a) Last) : P.Triple O i J Pre (p >>= f) Last :=
  hp.bind hf

theorem Triple.attempt (hp : P.Triple O i J Pre p Post) :
    P.Triple O i J Pre p.attempt fun r c d => match r with
      | .ok a => Post a c d
      | .error _ => J c d :=
  fun c d hd => wp_attempt (hp c d hd)

theorem triple_pure {a : α} (h : ∀ c d, Pre c d → Post a c d) :
    P.Triple O i J Pre (pure a : Prog D W L R ε α) Post := h

theorem triple_raise {e : ε} (h : ∀ c d, Pre c d → J c d) :
    P.Triple O i J Pre (raise e : Prog D W L R ε α) Post := h

theorem triple_stuck : P.Triple O i J Pre (stuck : Prog D W L R ε α) Post := fun _ _ _ => trivial

theorem triple_view {K : D → Ctx W L → D → Prop}
    (h : ∀ c d d', Pre c d → P.Env i c d d' → K (c.view d') c d') :
    P.Triple O i J Pre (view : Prog D W L R ε D) K :=
  fun c d hd d' he => h c d d' hd he

/-- An assertion that the others leave alone holds of the state that a read saw. -/
theorem triple_look (h : ∀ c d d', Pre c d → P.Env i c d d' → Pre c d') :
    P.Triple O i J Pre (view : Prog D W L R ε D) fun s c d => Pre c d ∧ s = c.view d :=
  triple_view fun c d d' hd he => ⟨h c d d' hd he, rfl⟩

theorem triple_acquire {l : L} {T : Ctx W L → D → Prop}
    (h : ∀ c d d', Pre c d → P.Env i c d d' → T (c.hold l) d') :
    P.Triple O i J Pre (acquire l : Prog D W L R ε Unit) fun _ => T :=
  fun c d hd d' he => h c d d' hd he

theorem triple_tryAcquire {l : L} {Tried : Bool → Ctx W L → D → Prop}
    (h : ∀ c d d', Pre c d → P.Env i c d d' → Tried true (c.hold l) d' ∧ Tried false c d') :
    P.Triple O i J Pre (tryAcquire l : Prog D W L R ε Bool) Tried :=
  fun c d hd d' he => h c d d' hd he

theorem triple_emit {w : W} {Wrote : Ctx W L → D → Prop}
    (h : ∀ c d, Pre c d → Wrote (c.push w) d) :
    P.Triple O i J Pre (emit w : Prog D W L R ε Unit) fun _ => Wrote :=
  fun c d hd => h c d hd

theorem triple_draw {Drawn : ℕ → Ctx W L → D → Prop}
    (h : ∀ c d d' n, Pre c d → P.Env i c d d' → n ∉ c.owned → P.Unused n d' →
      Drawn n (c.own n) d') :
    P.Triple O i J Pre (draw : Prog D W L R ε ℕ) Drawn :=
  fun c d hd d' n he hn hu => h c d d' n hd he hn hu

theorem triple_query {q : Q} {Answered : R q → Ctx W L → D → Prop}
    (h : ∀ c d r, Pre c d → O q r → Answered r c d) :
    P.Triple O i J Pre (query q : Prog D W L R ε (R q)) Answered :=
  fun c d hd r hr => h c d r hd hr

theorem triple_commit {T : Ctx W L → D → Prop}
    (h : ∀ c d d', Pre c d → P.Env i c d d' →
      P.Guar i c d' (c.view d') ∧ T c.release (c.view d')) :
    P.Triple O i J Pre (commitNow : Prog D W L R ε Unit) fun _ => T :=
  fun c d hd d' he => h c d d' hd he

theorem triple_rollback {Back : Ctx W L → D → Prop}
    (h : ∀ c d d', Pre c d → P.Env i c d d' → Back c.release d') :
    P.Triple O i J Pre (rollbackNow : Prog D W L R ε Unit) fun _ => Back :=
  fun c d hd d' he => h c d d' hd he

/-- A transaction whose body ends in a state that may be committed; `Bad` is what a failure leaves
of the body. -/
theorem Triple.transaction (Bad : Ctx W L → D → Prop) (Done : α → Ctx W L → D → Prop)
    {Back : α → Ctx W L → D → Prop} (hp : P.Triple O i Bad Pre p Done)
    (hb : ∀ c d d', Bad c d → P.Env i c d d' → J c.release d')
    (hc : ∀ a c d d', Done a c d → P.Env i c d d' →
      P.Guar i c d' (c.view d') ∧ Back a c.release (c.view d')) :
    P.Triple O i J Pre (transaction p) Back := by
  intro c d hd
  refine wp_bind (wp_attempt (wp_mono (hp c d hd) fun r c d hr => ?_))
  cases r with
  | ok a => exact fun d' he => hc a c d d' hr he
  | error e => exact fun d' he => hb c d d' hr he

/-- A transaction whose body ends in a state that may be committed. -/
theorem SessionInv.transaction (hJ : P.SessionInv i J) {Back : α → Ctx W L → D → Prop}
    (hp : P.Triple O i J Pre p Post)
    (hc : ∀ a c d d', Post a c d → P.Env i c d d' →
      P.Guar i c d' (c.view d') ∧ Back a c.release (c.view d')) :
    P.Triple O i J Pre (transaction p) Back :=
  hp.transaction J Post (fun c d d' hd he => hJ.rollback c d' (hJ.stable c d d' hd he)) hc

/-! ### Programs that keep a session invariant -/

section
variable (hJ : P.SessionInv i J)
include hJ

/-- The frame rule: a program keeps the invariant when it bears each of its writes. -/
theorem SessionInv.keeps_of_emits {S : W → Prop} {A : Q → Prop}
    (hS : ∀ w, S w → ∀ c d, J c d → J (c.push w) d) (hp : p.Emits O S A) : P.Keeps O i J p := by
  intro c d hd
  induction p generalizing c d with
  | ret a => exact hd
  | fail e => exact hd
  | halt => trivial
  | read k ih => exact fun d' he => ih _ (hp _) c d' (hJ.stable c d d' hd he)
  | lock l k ih => exact fun d' he => ih hp _ d' (hJ.hold c d' l (hJ.stable c d d' hd he))
  | tryLock l k ih =>
    intro d' he
    have hd' := hJ.stable c d d' hd he
    exact ⟨ih true (hp true) _ d' (hJ.hold c d' l hd'), ih false (hp false) c d' hd'⟩
  | write w k ih => exact ih hp.2 _ d (hS w hp.1 c d hd)
  | fresh k ih =>
    exact fun d' n he hn hu => ih n (hp n) _ d' (hJ.own c d' n (hJ.stable c d d' hd he) hn hu)
  | commit k ih =>
    intro d' he
    have hc := hJ.commit c d' (hJ.stable c d d' hd he)
    exact ⟨hc.1, ih hp _ _ hc.2⟩
  | rollback k ih =>
    exact fun d' he => ih hp _ d' (hJ.rollback c d' (hJ.stable c d d' hd he))
  | ask q k ih => exact fun r hr => ih r (hp.2 r hr) c d hd

theorem SessionInv.keeps_pure (a : α) : P.Keeps O i J (pure a : Prog D W L R ε α) :=
  triple_pure fun _ _ h => h

theorem SessionInv.keeps_raise (e : ε) : P.Keeps O i J (raise e : Prog D W L R ε α) :=
  triple_raise fun _ _ h => h

theorem SessionInv.keeps_view : P.Keeps O i J (view : Prog D W L R ε D) :=
  triple_view fun c d d' hd he => hJ.stable c d d' hd he

theorem SessionInv.keeps_acquire (l : L) : P.Keeps O i J (acquire l : Prog D W L R ε Unit) :=
  triple_acquire fun c d d' hd he => hJ.hold c d' l (hJ.stable c d d' hd he)

theorem SessionInv.keeps_query (q : Q) : P.Keeps O i J (query q : Prog D W L R ε (R q)) :=
  triple_query fun _ _ _ hd _ => hd

theorem SessionInv.keeps_commit : P.Keeps O i J (commitNow : Prog D W L R ε Unit) :=
  triple_commit fun c d d' hd he => hJ.commit c d' (hJ.stable c d d' hd he)

theorem SessionInv.keeps_transaction (hp : P.Keeps O i J p) :
    P.Keeps O i J (Prog.transaction p) :=
  hJ.transaction hp fun _ c d d' hd he => hJ.commit c d' (hJ.stable c d d' hd he)

end

/-- A program of one transaction keeps an assertion on the transaction that bears its writes. -/
theorem triple_of_open {S : W → Prop} {A : Q → Prop}
    (hstable : ∀ c d d', Pre c d → P.Env i c d d' → Pre c d')
    (hhold : ∀ c d l, Pre c d → Pre (c.hold l) d)
    (hown : ∀ c d n, Pre c d → n ∉ c.owned → P.Unused n d → Pre (c.own n) d)
    (hfail : ∀ c d, Pre c d → J c d) (hS : ∀ w, S w → ∀ c d, Pre c d → Pre (c.push w) d)
    (hp : p.Emits O S A) (hopen : p.Open) : P.Triple O i J Pre p fun _ => Pre := by
  intro c d hd
  induction p generalizing c d with
  | ret a => exact hd
  | fail e => exact hfail c d hd
  | halt => trivial
  | read k ih => exact fun d' he => ih _ (hp _) (hopen _) c d' (hstable c d d' hd he)
  | lock l k ih => exact fun d' he => ih hp hopen _ d' (hhold c d' l (hstable c d d' hd he))
  | tryLock l k ih =>
    intro d' he
    have hd' := hstable c d d' hd he
    exact ⟨ih true (hp true) (hopen true) _ d' (hhold c d' l hd'),
      ih false (hp false) (hopen false) c d' hd'⟩
  | write w k ih => exact ih hp.2 hopen _ d (hS w hp.1 c d hd)
  | fresh k ih =>
    intro d' n he hn hu
    exact ih n (hp n) (hopen n) _ d' (hown c d' n (hstable c d d' hd he) hn hu)
  | commit k ih => exact hopen.elim
  | rollback k ih => exact hopen.elim
  | ask q k ih => exact fun r hr => ih r (hp.2 r hr) (hopen r) c d hd

/-- What the committed database satisfies throughout a transaction. -/
theorem triple_of_db {B : D → Prop}
    (hB : ∀ (c : Ctx W L) d d', B d → P.Env i c d d' → B d') (hp : p.Open) :
    P.Triple O i (fun _ => B) (fun _ => B) p fun _ _ => B := by
  intro c d hd
  induction p generalizing c d with
  | ret a => exact hd
  | fail e => exact hd
  | halt => trivial
  | read k ih => exact fun d' he => ih _ (hp _) c d' (hB c d d' hd he)
  | lock l k ih => exact fun d' he => ih hp _ d' (hB c d d' hd he)
  | tryLock l k ih =>
    intro d' he
    have hd' := hB c d d' hd he
    exact ⟨ih true (hp true) _ d' hd', ih false (hp false) c d' hd'⟩
  | write w k ih => exact ih hp _ d hd
  | fresh k ih => exact fun d' n he _ _ => ih n (hp n) _ d' (hB c d d' hd he)
  | commit k ih => exact hp.elim
  | rollback k ih => exact hp.elim
  | ask q k ih => exact fun r _ => ih r (hp r) c d hd

theorem Keeps.bind {f : α → Prog D W L R ε β} (hp : P.Keeps O i J p)
    (hf : ∀ a, P.Keeps O i J (f a)) : P.Keeps O i J (p >>= f) :=
  Triple.bind hp hf

theorem Keeps.attempt (hp : P.Keeps O i J p) : P.Keeps O i J p.attempt :=
  (Triple.attempt hp).post fun r _ _ h => by cases r <;> exact h

theorem Keeps.forEach {f : γ → Prog D W L R ε Unit} (hf : ∀ x, P.Keeps O i J (f x))
    (xs : List γ) : P.Keeps O i J (forEach f xs) := by
  induction xs with
  | nil => exact triple_pure fun _ _ h => h
  | cons x xs ih => exact (hf x).bind fun _ => ih

theorem Keeps.collect {f : γ → Prog D W L R ε (Option β)} (hf : ∀ x, P.Keeps O i J (f x))
    (xs : List γ) : P.Keeps O i J (collect f xs) := by
  induction xs with
  | nil => exact triple_pure fun _ _ h => h
  | cons x xs ih =>
    exact (hf x).bind fun _ => ih.bind fun _ => triple_pure fun _ _ h => h

/-- The rule of a loop whose rounds keep an assertion. -/
theorem Triple.forEach {f : γ → Prog D W L R ε Unit} {xs : List γ}
    (h : ∀ x ∈ xs, P.Triple O i J Pre (f x) fun _ => Pre) :
    P.Triple O i J Pre (forEach f xs) fun _ => Pre := by
  induction xs with
  | nil => exact triple_pure fun _ _ hd => hd
  | cons x xs ih =>
    refine (h x List.mem_cons_self).bind fun _ => ?_
    exact ih fun y hy => h y (List.mem_cons_of_mem _ hy)

/-- The rule of a loop, over what it has done. -/
theorem triple_forEach {I : List γ → Ctx W L → D → Prop} {f : γ → Prog D W L R ε Unit}
    (h : ∀ done x, P.Triple O i J (I done) (f x) fun _ => I (done ++ [x])) (done xs : List γ) :
    P.Triple O i J (I done) (forEach f xs) fun _ => I (done ++ xs) := by
  induction xs generalizing done with
  | nil => exact triple_pure fun _ _ hd => by rwa [List.append_nil]
  | cons x xs ih =>
    have hrest := ih (done ++ [x])
    rw [List.append_assoc, List.singleton_append] at hrest
    exact (h done x).bind fun _ => hrest

theorem triple_collect {I : List γ → Ctx W L → D → Prop} {f : γ → Prog D W L R ε (Option β)}
    (h : ∀ done x, P.Triple O i J (I done) (f x) fun _ => I (done ++ [x])) (done xs : List γ) :
    P.Triple O i J (I done) (collect f xs) fun _ => I (done ++ xs) := by
  induction xs generalizing done with
  | nil => exact triple_pure fun _ _ hd => by rwa [List.append_nil]
  | cons x xs ih =>
    have hrest := ih (done ++ [x])
    rw [List.append_assoc, List.singleton_append] at hrest
    exact (h done x).bind fun _ => hrest.bind fun _ => triple_pure fun _ _ hd => hd

/-- The rule of a loop, over what it has returned. -/
theorem triple_collected {I : List β → Ctx W L → D → Prop} {f : γ → Prog D W L R ε (Option β)}
    (h : ∀ found x, P.Triple O i J (I found) (f x) fun y => I (found ++ y.toList))
    (found : List β) (xs : List γ) :
    P.Triple O i J (I found) (collect f xs) fun ys => I (found ++ ys) := by
  induction xs generalizing found with
  | nil => exact triple_pure fun _ _ hd => by rwa [List.append_nil]
  | cons x xs ih =>
    refine (h found x).bind fun y => (ih (found ++ y.toList)).bind fun ys => ?_
    exact triple_pure fun _ _ hd => by rwa [List.append_assoc] at hd

/-- A session may start with a program that keeps an invariant which a fresh session meets. -/
theorem Keeps.rest {p : Prog D W L R ε Unit} (hp : P.Keeps O i J p) {d : D} (hd : J {} d) :
    P.wp O i p Rest {} d :=
  wp_mono (hp {} d hd) fun _ _ _ _ => trivial

end Protocol
end Quantive.ReadCommitted
