import Quantive.ReadCommitted.World

/-!
# Replaying a schedule

A schedule names which session starts, runs for some statements or crashes. `Bench` keeps the
sessions that were ever started in a list, so that a schedule can be evaluated; what it
reaches, the system reaches.
-/

namespace Quantive.ReadCommitted
variable {ι D W L Q : Type} {R : Q → Type} {ε : Type}

structure Bench (ι D W L : Type) {Q : Type} (R : Q → Type) (ε : Type) where
  db : D
  names : ℕ := 0
  sessions : List (ι × Session D W L R ε) := []

/-- `run` lets a session take up to `steps` statements, until it ends or waits for a lock. -/
inductive Move (ι D W L : Type) {Q : Type} (R : Q → Type) (ε : Type) where
  | start (i : ι) (p : Prog D W L R ε Unit)
  | run (i : ι) (steps : ℕ) (ans : (q : Q) → R q)
  | crash (i : ι)

namespace Bench
variable [DecidableEq ι]

def session (b : Bench ι D W L R ε) (i : ι) : Session D W L R ε :=
  (b.sessions.lookup i).getD ⟨.ret (), {}⟩

def world (b : Bench ι D W L R ε) : World ι D W L R ε := ⟨b.db, b.names, b.session⟩

def put (b : Bench ι D W L R ε) (d : D) (n : ℕ) (i : ι) (s : Session D W L R ε) :
    Bench ι D W L R ε := ⟨d, n, (i, s) :: b.sessions⟩

def free [DecidableEq L] (b : Bench ι D W L R ε) (i : ι) (l : L) : Bool :=
  b.sessions.all fun e => e.1 = i || l ∉ (b.session e.1).ctx.held

theorem world_put (b : Bench ι D W L R ε) (d : D) (n : ℕ) (i : ι) (s : Session D W L R ε) :
    (b.put d n i s).world = ⟨d, n, Function.update b.world.sessions i s⟩ := by
  have hsession : (b.put d n i s).session = Function.update b.session i s := by
    funext j
    by_cases hj : j = i
    · subst hj
      simp [session, put]
    · simp [session, put, List.lookup_cons, hj, beq_eq_false_iff_ne.mpr hj]
  rw [world, hsession]
  rfl

/-- A session that was never started is at rest. -/
theorem mem_or_rest (b : Bench ι D W L R ε) (i : ι) :
    (∃ e ∈ b.sessions, e.1 = i) ∨ b.session i = ⟨.ret (), {}⟩ := by
  by_cases hmem : ∃ e ∈ b.sessions, e.1 = i
  · exact Or.inl hmem
  · have hlookup : b.sessions.lookup i = none := by
      rw [List.lookup_eq_none_iff]
      intro e he
      have hne : e.1 ≠ i := fun hi => hmem ⟨e, he, hi⟩
      simpa using Ne.symm hne
    exact Or.inr (by rw [session, hlookup]; rfl)

theorem mem_of_held {b : Bench ι D W L R ε} {i : ι} {l : L} (h : l ∈ (b.session i).ctx.held) :
    ∃ e ∈ b.sessions, e.1 = i := by
  rcases b.mem_or_rest i with hmem | hrest
  · exact hmem
  · rw [hrest] at h
    cases h

variable [DecidableEq L]

theorem free_iff (b : Bench ι D W L R ε) (i : ι) : System.Free b.world i (b.free i) := by
  intro l
  simp only [free, List.all_eq_true, Bool.or_eq_true, decide_eq_true_eq]
  constructor
  · intro h j hj hl
    obtain ⟨e, he, rfl⟩ := mem_of_held hl
    exact (h e he).elim hj fun hn => hn hl
  · intro h e _
    by_cases hi : e.1 = i
    · exact Or.inl hi
    · exact Or.inr (h e.1 hi)

variable [Store D W]

def runSteps (i : ι) (ans : (q : Q) → R q) : ℕ → Bench ι D W L R ε → Bench ι D W L R ε
  | 0, b => b
  | steps + 1, b =>
    match advance (b.free i) ans b.db b.names (b.session i) with
    | none => b
    | some (d, n, s) => runSteps i ans steps (b.put d n i s)

def move (b : Bench ι D W L R ε) : Move ι D W L R ε → Bench ι D W L R ε
  | .start i p => if (b.session i).prog.finished then b.put b.db b.names i ⟨p, {}⟩ else b
  | .run i steps ans => b.runSteps i ans steps
  | .crash i => b.put b.db b.names i ⟨.ret (), {}⟩

def play (b : Bench ι D W L R ε) (schedule : List (Move ι D W L R ε)) : Bench ι D W L R ε :=
  schedule.foldl move b

end Bench

namespace System
variable [DecidableEq ι] [DecidableEq L] [Store D W] {S : System ι D W L R ε}

/-- The schedule starts programs of the system and answers as its surroundings may. -/
def Allows (S : System ι D W L R ε) : Move ι D W L R ε → Prop
  | .start i p => S.programs i p
  | .run _ _ ans => ∀ q, S.oracle q (ans q)
  | .crash _ => True

theorem Reachable.runSteps {i : ι} {ans : (q : Q) → R q} (hans : ∀ q, S.oracle q (ans q))
    (steps : ℕ) {b : Bench ι D W L R ε} (h : S.Reachable b.world) :
    S.Reachable (b.runSteps i ans steps).world := by
  induction steps generalizing b with
  | zero => exact h
  | succ steps ih =>
    unfold Bench.runSteps
    split
    · exact h
    · rename_i d n s hs
      have hanswers : S.Answers b.world i ans := by
        unfold Answers
        split
        · exact hans _
        · trivial
      refine ih (.step h (l := .run i) ?_)
      rw [Bench.world_put]
      exact Step.run (b.free_iff i) hanswers hs

theorem Reachable.play {b : Bench ι D W L R ε} {schedule : List (Move ι D W L R ε)}
    (hschedule : ∀ m ∈ schedule, S.Allows m) (h : S.Reachable b.world) :
    S.Reachable (b.play schedule).world := by
  induction schedule generalizing b with
  | nil => exact h
  | cons m schedule ih =>
    refine ih (fun m' hm => hschedule m' (List.mem_cons_of_mem _ hm)) ?_
    have hm := hschedule m List.mem_cons_self
    cases m with
    | start i p =>
      show S.Reachable (if _ then _ else b : Bench ι D W L R ε).world
      split
      · rename_i hfinished
        refine .step h (l := .start i) ?_
        rw [Bench.world_put]
        exact Step.start hfinished hm
      · exact h
    | run i steps ans => exact h.runSteps hm steps
    | crash i =>
      show S.Reachable (b.put b.db b.names i ⟨.ret (), {}⟩).world
      refine .step h (l := .crash i) ?_
      rw [Bench.world_put]
      exact Step.crash

/-- What a schedule from an initial database makes of it refutes an invariant. -/
theorem Reachable.of_schedule {d : D} (hd : S.init d) {schedule : List (Move ι D W L R ε)}
    (hschedule : ∀ m ∈ schedule, S.Allows m) :
    S.Reachable (Bench.play { db := d } schedule).world :=
  Reachable.play hschedule (.init ⟨hd, rfl, fun _ => rfl⟩)

end System
end Quantive.ReadCommitted
