import Mathlib.Order.Basic
import Quantive.ReadCommitted.Triple

/-!
# Lock order

A session waits for another when its next statement locks what the other holds. When every
program asks for the ranked locks in increasing order, the sessions that wait for ranked
locks do not wait in a circle. `climbs` is the weakest precondition of that on the locks
held so far; `Climb` are its triples.
-/

namespace Quantive.ReadCommitted
variable {D W L Q ι ρ : Type} {R : Q → Type} {ε α β γ : Type}

/-- The lock that the next statement waits for. -/
def Prog.awaited : Prog D W L R ε α → Option L
  | .lock l _ => some l
  | _ => none

namespace World

/-- Session `i` cannot go on before session `j` releases `l`. -/
def WaitsFor (w : World ι D W L R ε) (l : L) (i j : ι) : Prop :=
  i ≠ j ∧ (w.sessions i).prog.awaited = some l ∧ l ∈ (w.sessions j).ctx.held

/-- Some sessions wait for each other in a circle. -/
def Deadlocked (w : World ι D W L R ε) : Prop :=
  ∃ i, Relation.TransGen (fun i j => ∃ l, w.WaitsFor l i j) i i

end World

/-! ### Programs that climb -/

section
variable [Preorder ρ] (rank : L → Option ρ)

/-- Every ranked lock in the list is below `r`. -/
def Below (held : List L) (r : ρ) : Prop := ∀ h ∈ held, ∀ s, rank h = some s → s < r

/-- The lock may be asked for: it is held already, or it has no rank, or its rank is above those of
the locks held. -/
def MayAsk (held : List L) (l : L) : Prop := l ∈ held ∨ ∀ r, rank l = some r → Below rank held r

namespace Prog

/-- From the locks `held` on, the program asks in order and ends in `K`. -/
def climbs : Prog D W L R ε α → (Except ε α → List L → Prop) → List L → Prop
  | ret a, K, held => K (.ok a) held
  | fail e, K, held => K (.error e) held
  | halt, _, _ => True
  | read k, K, held => ∀ d, (k d).climbs K held
  | lock l k, K, held => MayAsk rank held l ∧ k.climbs K (l :: held)
  | tryLock l k, K, held => (k true).climbs K (l :: held) ∧ (k false).climbs K held
  | write _ k, K, held => k.climbs K held
  | fresh k, K, held => ∀ n, (k n).climbs K held
  | commit k, K, _ => k.climbs K []
  | rollback k, K, _ => k.climbs K []
  | ask _ k, K, held => ∀ r, (k r).climbs K held

/-- A program that climbs whatever it ends in. -/
def Climbing (p : Prog D W L R ε α) (held : List L) : Prop := p.climbs rank (fun _ _ => True) held

end Prog

/-! ### Reachable worlds -/

section
variable [Store D W] {S : System ι D W L R ε} {w w' : World ι D W L R ε}
open Prog

/-- The protocol that promises nothing. -/
def Protocol.anything (ι D L : Type) : Protocol ι D L where
  Inv _ := True
  Rely _ _ _ _ _ := True
  rely_refl _ _ _ _ := trivial
  rely_trans _ _ _ _ _ _ _ _ := trivial

theorem Protocol.wp_anything {O : (q : Q) → R q → Prop} {i : ι} (p : Prog D W L R ε Unit)
    (c : Ctx W L) (d : D) : (Protocol.anything ι D L).wp O i p Protocol.Rest c d := by
  induction p generalizing c d with
  | ret a => trivial
  | fail e => trivial
  | halt => trivial
  | read k ih => exact fun d' _ => ih _ c d'
  | lock l k ih => exact fun d' _ => ih _ d'
  | tryLock l k ih => exact fun d' _ => ⟨ih _ _ d', ih _ _ d'⟩
  | write w k ih => exact ih _ d
  | fresh k ih => exact fun d' n _ _ _ => ih n _ d'
  | commit k ih =>
    exact fun d' _ => ⟨⟨trivial, fun _ _ _ _ _ _ => trivial, fun _ _ _ => trivial, trivial⟩, ih _ _⟩
  | rollback k ih => exact fun d' _ => ih _ d'
  | ask q k ih => exact fun r _ => ih r c d

variable [DecidableEq ι]

/-- No two sessions hold one lock. -/
theorem System.Reachable.apart (hw : S.Reachable w) :
    Protocol.Apart fun i => (w.sessions i).ctx.held :=
  (Protocol.sound (P := Protocol.anything ι D L) (fun _ p d _ _ => Protocol.wp_anything p {} d)
    (fun _ _ => ⟨trivial, fun _ => trivial⟩) w hw).held

theorem climbing_step (hprograms : ∀ i p, S.programs i p → p.Climbing rank []) {l : Label ι}
    (h : S.Step w l w') (hw : ∀ i, (w.sessions i).prog.Climbing rank (w.sessions i).ctx.held) :
    ∀ i, (w'.sessions i).prog.Climbing rank (w'.sessions i).ctx.held := by
  have hput : ∀ (i : ι) (s : Session D W L R ε), s.prog.Climbing rank s.ctx.held →
      ∀ j, (Function.update w.sessions i s j).prog.Climbing rank
        (Function.update w.sessions i s j).ctx.held := by
    intro i s hs j
    by_cases hj : j = i
    · rw [hj, Function.update_self]
      exact hs
    · rw [Function.update_of_ne hj]
      exact hw j
  cases h with
  | start hi hp => exact hput _ _ (hprograms _ _ hp)
  | crash => exact hput _ _ trivial
  | @run i free ans d n s hf ha hs =>
    refine hput i s ?_
    have hi := hw i
    rcases hsess : w.sessions i with ⟨p, c⟩
    rw [hsess] at hs hi
    cases p with
    | ret a => cases hs
    | fail e => cases hs
    | halt => cases hs
    | read k => cases hs; exact hi _
    | lock m k =>
      by_cases hm : free m
      · simp only [advance, hm, if_true, Option.some.injEq] at hs
        cases hs
        exact hi.2
      · simp [advance, hm] at hs
    | tryLock m k =>
      by_cases hm : free m
      · simp only [advance, hm, if_true, Option.some.injEq] at hs
        cases hs
        exact hi.1
      · simp only [advance, hm, Bool.false_eq_true, if_false, Option.some.injEq] at hs
        cases hs
        exact hi.2
    | write v k => cases hs; exact hi
    | fresh k => cases hs; exact hi _
    | commit k => cases hs; exact hi
    | rollback k => cases hs; exact hi
    | ask q k => cases hs; exact hi _

theorem climbing_reachable (hprograms : ∀ i p, S.programs i p → p.Climbing rank [])
    (hw : S.Reachable w) : ∀ i, (w.sessions i).prog.Climbing rank (w.sessions i).ctx.held := by
  induction hw with
  | init h =>
    intro i
    rw [h.2.2 i]
    trivial
  | step _ hs ih => exact climbing_step rank hprograms hs ih

/-- The locks of a path of waits increase. -/
theorem waits_increase (hprograms : ∀ i p, S.programs i p → p.Climbing rank []) (hw : S.Reachable w)
    {i j : ι} (h : Relation.TransGen (fun i j => ∃ l, (rank l).isSome ∧ w.WaitsFor l i j) i j) :
    ∃ l r, (w.sessions i).prog.awaited = some l ∧ rank l = some r ∧
      ∃ m s, rank m = some s ∧ m ∈ (w.sessions j).ctx.held ∧ r ≤ s := by
  have hfirst : ∀ {i j l}, (rank l).isSome → w.WaitsFor l i j →
      ∃ r, (w.sessions i).prog.awaited = some l ∧ rank l = some r ∧ l ∈ (w.sessions j).ctx.held := by
    intro i j l hl hwait
    obtain ⟨r, hr⟩ := Option.isSome_iff_exists.mp hl
    exact ⟨r, hwait.2.1, hr, hwait.2.2⟩
  induction h with
  | single h =>
    obtain ⟨l, hl, hwait⟩ := h
    obtain ⟨r, hawaited, hr, hheld⟩ := hfirst hl hwait
    exact ⟨l, r, hawaited, hr, l, r, hr, hheld, le_refl r⟩
  | @tail j k _ h ih =>
    obtain ⟨l, r, hawaited, hr, m, s, hs, hheld, hle⟩ := ih
    obtain ⟨l', hl', hwait⟩ := h
    obtain ⟨r', hawaited', hr', hheld'⟩ := hfirst hl' hwait
    refine ⟨l, r, hawaited, hr, l', r', hr', hheld', ?_⟩
    have hclimbing := climbing_reachable rank hprograms hw j
    cases hprog : (w.sessions j).prog with
    | lock l'' rest =>
      rw [hprog] at hclimbing hawaited'
      obtain rfl : l'' = l' := Option.some.inj hawaited'
      rcases hclimbing.1 with hself | hbelow
      · exact absurd hheld' (hw.apart j k hwait.1 l'' hself)
      · exact hle.trans (hbelow r' hr' m hheld s hs).le
    | _ =>
      rw [hprog] at hawaited'
      cases hawaited'

/-- No circle of waits for ranked locks. -/
theorem no_ranked_circle (hprograms : ∀ i p, S.programs i p → p.Climbing rank [])
    (hw : S.Reachable w) (i : ι) :
    ¬ Relation.TransGen (fun i j => ∃ l, (rank l).isSome ∧ w.WaitsFor l i j) i i := by
  intro h
  obtain ⟨l, r, hawaited, hr, m, s, hs, hheld, hle⟩ := waits_increase rank hprograms hw h
  obtain ⟨j, ⟨l', hl', hwait⟩, -⟩ := Relation.TransGen.head'_iff.mp h
  obtain rfl : l = l' := Option.some.inj (hawaited.symm.trans hwait.2.1)
  have hclimbing := climbing_reachable rank hprograms hw i
  cases hprog : (w.sessions i).prog with
  | lock l'' rest =>
    rw [hprog] at hclimbing hawaited
    obtain rfl : l'' = l := Option.some.inj hawaited
    rcases hclimbing.1 with hself | hbelow
    · exact hw.apart i j hwait.1 l'' hself hwait.2.2
    · exact absurd (hbelow r hr m hheld s hs) (not_lt_of_ge hle)
  | _ =>
    rw [hprog] at hawaited
    cases hawaited

/-- A circle of waits has a session that waits for a lock without a rank. -/
theorem not_deadlocked (hprograms : ∀ i p, S.programs i p → p.Climbing rank [])
    (hw : S.Reachable w) (hranked : ∀ l i j, w.WaitsFor l i j → (rank l).isSome) :
    ¬ w.Deadlocked := by
  rintro ⟨i, h⟩
  have hranks : ∀ i j, (∃ l, w.WaitsFor l i j) → ∃ l, (rank l).isSome ∧ w.WaitsFor l i j :=
    fun i j ⟨l, hwait⟩ => ⟨l, hranked l i j hwait, hwait⟩
  exact no_ranked_circle rank hprograms hw i (Relation.TransGen.mono hranks i i h)

end

/-! ### Triples -/

namespace Prog

variable {rank}

theorem climbs_bind {p : Prog D W L R ε α} {f : α → Prog D W L R ε β}
    {K : Except ε β → List L → Prop} {held : List L}
    (h : p.climbs rank (fun r held => match r with
      | .ok a => (f a).climbs rank K held
      | .error e => K (.error e) held) held) : (p >>= f).climbs rank K held := by
  change (p.bind f).climbs rank K held
  induction p generalizing held with
  | ret a => exact h
  | fail e => exact h
  | halt => trivial
  | read k ih => exact fun d => ih d (h d)
  | lock l k ih => exact ⟨h.1, ih h.2⟩
  | tryLock l k ih => exact ⟨ih true h.1, ih false h.2⟩
  | write w k ih => exact ih h
  | fresh k ih => exact fun n => ih n (h n)
  | commit k ih => exact ih h
  | rollback k ih => exact ih h
  | ask q k ih => exact fun r => ih r (h r)

theorem climbs_attempt {p : Prog D W L R ε α} {K : Except ε (Except ε α) → List L → Prop}
    {held : List L} (h : p.climbs rank (fun r held => K (.ok r) held) held) :
    p.attempt.climbs rank K held := by
  induction p generalizing held with
  | ret a => exact h
  | fail e => exact h
  | halt => trivial
  | read k ih => exact fun d => ih d (h d)
  | lock l k ih => exact ⟨h.1, ih h.2⟩
  | tryLock l k ih => exact ⟨ih true h.1, ih false h.2⟩
  | write w k ih => exact ih h
  | fresh k ih => exact fun n => ih n (h n)
  | commit k ih => exact ih h
  | rollback k ih => exact ih h
  | ask q k ih => exact fun r => ih r (h r)

theorem climbs_mono {p : Prog D W L R ε α} {K K' : Except ε α → List L → Prop} {held : List L}
    (h : p.climbs rank K held) (hK : ∀ r held, K r held → K' r held) :
    p.climbs rank K' held := by
  induction p generalizing held with
  | ret a => exact hK _ _ h
  | fail e => exact hK _ _ h
  | halt => trivial
  | read k ih => exact fun d => ih d (h d)
  | lock l k ih => exact ⟨h.1, ih h.2⟩
  | tryLock l k ih => exact ⟨ih true h.1, ih false h.2⟩
  | write w k ih => exact ih h
  | fresh k ih => exact fun n => ih n (h n)
  | commit k ih => exact ih h
  | rollback k ih => exact ih h
  | ask q k ih => exact fun r => ih r (h r)

end Prog

/-- From locks that meet `Pre` the program asks in order, and where it returns the locks meet
`Post`. -/
def Climb (Pre : List L → Prop) (p : Prog D W L R ε α) (Post : α → List L → Prop) : Prop :=
  ∀ held, Pre held → p.climbs rank (fun r held => match r with
    | .ok a => Post a held
    | .error _ => True) held

variable {rank} {Pre Pre' : List L → Prop} {p : Prog D W L R ε α} {Post Post' : α → List L → Prop}
open Prog

theorem Climb.conseq (h : Climb rank Pre p Post) (hpre : ∀ held, Pre' held → Pre held)
    (hpost : ∀ a held, Post a held → Post' a held) : Climb rank Pre' p Post' := by
  intro held hheld
  refine climbs_mono (h held (hpre held hheld)) fun r held hr => ?_
  cases r with
  | ok a => exact hpost a held hr
  | error e => trivial

theorem Climb.pre (h : Climb rank Pre p Post) (hpre : ∀ held, Pre' held → Pre held) :
    Climb rank Pre' p Post :=
  h.conseq hpre fun _ _ hr => hr

theorem Climb.post (h : Climb rank Pre p Post) (hpost : ∀ a held, Post a held → Post' a held) :
    Climb rank Pre p Post' :=
  h.conseq (fun _ hr => hr) hpost

/-- A fact of the precondition that no state changes. -/
theorem Climb.fact {F : Prop} (h : F → Climb rank Pre p Post) :
    Climb rank (fun held => F ∧ Pre held) p Post :=
  fun held hheld => h hheld.1 held hheld.2

theorem Climb.bind {f : α → Prog D W L R ε β} {Last : β → List L → Prop}
    (hp : Climb rank Pre p Post) (hf : ∀ a, Climb rank (Post a) (f a) Last) :
    Climb rank Pre (p >>= f) Last := by
  intro held hheld
  refine climbs_bind (climbs_mono (hp held hheld) fun r held hr => ?_)
  cases r with
  | ok a => exact hf a held hr
  | error e => trivial

/-- The rule of composition with the assertion in the middle written out. -/
theorem Climb.seq (Mid : α → List L → Prop) {f : α → Prog D W L R ε β} {Last : β → List L → Prop}
    (hp : Climb rank Pre p Mid) (hf : ∀ a, Climb rank (Mid a) (f a) Last) :
    Climb rank Pre (p >>= f) Last :=
  hp.bind hf

theorem climb_raise {e : ε} : Climb rank Pre (raise e : Prog D W L R ε α) Post :=
  fun _ _ => trivial

theorem climb_view : Climb rank Pre (view : Prog D W L R ε D) fun _ => Pre :=
  fun _ hheld _ => hheld

theorem climb_emit {w : W} : Climb rank Pre (emit w : Prog D W L R ε Unit) fun _ => Pre :=
  fun _ hheld => hheld

theorem climb_draw : Climb rank Pre (draw : Prog D W L R ε ℕ) fun _ => Pre :=
  fun _ hheld _ => hheld

theorem climb_query {q : Q} : Climb rank Pre (query q : Prog D W L R ε (R q)) fun _ => Pre :=
  fun _ hheld _ => hheld

theorem climb_acquire {l : L} {T : List L → Prop}
    (h : ∀ held, Pre held → MayAsk rank held l ∧ T (l :: held)) :
    Climb rank Pre (acquire l : Prog D W L R ε Unit) fun _ => T :=
  fun held hheld => h held hheld

theorem climb_tryAcquire {l : L} {Tried : Bool → List L → Prop}
    (h : ∀ held, Pre held → Tried true (l :: held) ∧ Tried false held) :
    Climb rank Pre (tryAcquire l : Prog D W L R ε Bool) Tried :=
  fun held hheld => h held hheld

/-- A transaction ends without locks. -/
theorem Climb.transaction (h : Climb rank Pre p Post) :
    Climb rank Pre (transaction p) fun _ held => held = [] := by
  intro held hheld
  refine climbs_bind (climbs_attempt (climbs_mono (h held hheld) fun r held _ => ?_))
  cases r with
  | ok a => rfl
  | error e => trivial

/-- The rule of a loop, over what is left of it. -/
theorem climb_forEach {I : List γ → List L → Prop} {f : γ → Prog D W L R ε Unit}
    (h : ∀ x xs, Climb rank (I (x :: xs)) (f x) fun _ => I xs) (xs : List γ) :
    Climb rank (I xs) (forEach f xs) fun _ => I [] := by
  induction xs with
  | nil => exact fun _ hheld => hheld
  | cons x xs ih => exact (h x xs).bind fun _ => ih

/-- The rule of a loop that collects, with what it has to say of the elements. -/
theorem climb_collect {I : List γ → List L → Prop} {G : β → Prop}
    {f : γ → Prog D W L R ε (Option β)}
    (h : ∀ x xs, Climb rank (I (x :: xs)) (f x) fun y held => (∀ b ∈ y, G b) ∧ I xs held)
    (xs : List γ) :
    Climb rank (I xs) (collect f xs) fun ys held => (∀ b ∈ ys, G b) ∧ I [] held := by
  induction xs with
  | nil => exact fun _ hheld => ⟨fun b hb => absurd hb List.not_mem_nil, hheld⟩
  | cons x xs ih =>
    refine (h x xs).bind fun y => Climb.fact fun hy => ih.bind fun ys => ?_
    refine fun held hheld => ⟨fun b hb => ?_, hheld.2⟩
    rcases List.mem_append.mp hb with hb | hb
    · exact hy b (Option.mem_toList.mp hb)
    · exact hheld.1 b hb

/-- A program that climbs from no lock on. -/
theorem Climb.climbing {p : Prog D W L R ε Unit} {T : Unit → List L → Prop}
    (h : Climb rank (· = []) p T) :
    p.Climbing rank [] :=
  climbs_mono (h [] rfl) fun _ _ _ => trivial

end

end Quantive.ReadCommitted
