import Quantive.ReadCommitted.Replay

/-!
# Counting the steps of a run

`Tally allowed counted n w`: some run reaches `w`, each of its steps takes the database as
`allowed` says, and `n` of its steps are `counted`.
-/

namespace Quantive.ReadCommitted
variable {ι D W L Q : Type} {R : Q → Type} {ε : Type}

namespace System
variable [Store D W] [DecidableEq ι] (S : System ι D W L R ε) (allowed counted : D → D → Prop)

inductive Tally : ℕ → World ι D W L R ε → Prop
  | init {w} : S.Initial w → Tally 0 w
  | other {n w l w'} : Tally n w → S.Step w l w' → allowed w.db w'.db → ¬ counted w.db w'.db →
      Tally n w'
  | count {n w l w'} : Tally n w → S.Step w l w' → allowed w.db w'.db → counted w.db w'.db →
      Tally (n + 1) w'

variable {S allowed counted}

theorem Tally.reachable {n : ℕ} {w : World ι D W L R ε} (h : S.Tally allowed counted n w) :
    S.Reachable w := by
  induction h with
  | init hw => exact .init hw
  | other _ hs _ _ ih => exact .step ih hs
  | count _ hs _ _ ih => exact .step ih hs

theorem Tally.mono {allowed' : D → D → Prop} (ha : ∀ d d', allowed d d' → allowed' d d') {n : ℕ}
    {w : World ι D W L R ε} (h : S.Tally allowed counted n w) : S.Tally allowed' counted n w := by
  induction h with
  | init hw => exact .init hw
  | other _ hs hallowed hc ih => exact .other ih hs (ha _ _ hallowed) hc
  | count _ hs hallowed hc ih => exact .count ih hs (ha _ _ hallowed) hc

/-- The rule for tallies: what holds at first, and after every step of a reachable world that takes
the database as allowed. -/
theorem Tally.rule {K : ℕ → D → Prop} (hinit : ∀ d, S.init d → K 0 d)
    (hother : ∀ n w l w', S.Reachable w → S.Step w l w' → allowed w.db w'.db →
      ¬ counted w.db w'.db → K n w.db → K n w'.db)
    (hcount : ∀ n w l w', S.Reachable w → S.Step w l w' → allowed w.db w'.db →
      counted w.db w'.db → K n w.db → K (n + 1) w'.db)
    {n : ℕ} {w : World ι D W L R ε} (h : S.Tally allowed counted n w) : K n w.db := by
  induction h with
  | init hw => exact hinit _ hw.1
  | other hbefore hs ha hc ih => exact hother _ _ _ _ hbefore.reachable hs ha hc ih
  | count hbefore hs ha hc ih => exact hcount _ _ _ _ hbefore.reachable hs ha hc ih

end System

/-! ### Tallies of a schedule -/

namespace Bench
variable [DecidableEq ι] [DecidableEq L] [Store D W] (allowed counted : D → D → Bool)

def tallySteps (i : ι) (ans : (q : Q) → R q) :
    ℕ → ℕ × Bench ι D W L R ε → Option (ℕ × Bench ι D W L R ε)
  | 0, t => some t
  | steps + 1, (n, b) =>
    match advance (b.free i) ans b.db b.names (b.session i) with
    | none => some (n, b)
    | some (d, m, s) =>
      if allowed b.db d then
        tallySteps i ans steps (if counted b.db d then n + 1 else n, b.put d m i s)
      else none

/-- A start or a crash leaves the database alone. -/
def tallyMove (t : ℕ × Bench ι D W L R ε) : Move ι D W L R ε → Option (ℕ × Bench ι D W L R ε)
  | .run i steps ans => tallySteps allowed counted i ans steps t
  | m => if allowed t.2.db t.2.db && !counted t.2.db t.2.db then some (t.1, t.2.move m) else none

/-- `none` when a step takes the database otherwise than allowed. -/
def tally (b : Bench ι D W L R ε) (schedule : List (Move ι D W L R ε)) :
    Option (ℕ × Bench ι D W L R ε) :=
  schedule.foldlM (tallyMove allowed counted) (0, b)

end Bench

namespace System
variable [DecidableEq ι] [DecidableEq L] [Store D W] {S : System ι D W L R ε}
  {allowed counted : D → D → Bool}

theorem Tally.tallySteps {i : ι} {ans : (q : Q) → R q} (hans : ∀ q, S.oracle q (ans q)) (steps : ℕ)
    {n n' : ℕ} {b b' : Bench ι D W L R ε}
    (h : S.Tally (fun d d' => allowed d d' = true) (fun d d' => counted d d' = true) n b.world)
    (hsteps : Bench.tallySteps allowed counted i ans steps (n, b) = some (n', b')) :
    S.Tally (fun d d' => allowed d d' = true) (fun d d' => counted d d' = true) n' b'.world := by
  induction steps generalizing n b with
  | zero =>
    cases hsteps
    exact h
  | succ steps ih =>
    unfold Bench.tallySteps at hsteps
    split at hsteps
    · cases hsteps
      exact h
    · rename_i d m s hs
      split at hsteps
      · rename_i hallowed
        have hanswers : S.Answers b.world i ans := by
          unfold Answers
          split
          · exact hans _
          · trivial
        have hstep : S.Step b.world (.run i) (b.put d m i s).world := by
          rw [Bench.world_put]
          exact Step.run (b.free_iff i) hanswers hs
        refine ih ?_ hsteps
        by_cases hcounted : counted b.db d = true
        · rw [if_pos hcounted]
          exact .count h hstep hallowed hcounted
        · rw [if_neg hcounted]
          exact .other h hstep hallowed hcounted
      · cases hsteps

theorem Tally.tallyMove {m : Move ι D W L R ε} (hm : S.Allows m) {n n' : ℕ}
    {b b' : Bench ι D W L R ε}
    (h : S.Tally (fun d d' => allowed d d' = true) (fun d d' => counted d d' = true) n b.world)
    (hmove : Bench.tallyMove allowed counted (n, b) m = some (n', b')) :
    S.Tally (fun d d' => allowed d d' = true) (fun d d' => counted d d' = true) n' b'.world := by
  cases m with
  | run i steps ans => exact h.tallySteps hm steps hmove
  | start i p =>
    simp only [Bench.tallyMove] at hmove
    split at hmove
    · rename_i hsame
      cases hmove
      rw [Bool.and_eq_true, Bool.not_eq_true'] at hsame
      show S.Tally _ _ n (if _ then _ else b : Bench ι D W L R ε).world
      split
      · rename_i hfinished
        have hstep : S.Step b.world (.start i) (b.put b.db b.names i ⟨p, {}⟩).world := by
          rw [Bench.world_put]
          exact Step.start hfinished hm
        refine .other h hstep hsame.1 ?_
        · show ¬ counted b.db b.db = true
          rw [hsame.2]
          exact Bool.false_ne_true
      · exact h
    · cases hmove
  | crash i =>
    simp only [Bench.tallyMove] at hmove
    split at hmove
    · rename_i hsame
      cases hmove
      rw [Bool.and_eq_true, Bool.not_eq_true'] at hsame
      have hstep : S.Step b.world (.crash i) (b.put b.db b.names i ⟨.ret (), {}⟩).world := by
        rw [Bench.world_put]
        exact Step.crash
      refine .other h hstep hsame.1 ?_
      · show ¬ counted b.db b.db = true
        rw [hsame.2]
        exact Bool.false_ne_true
    · cases hmove

/-- What a schedule from an initial database counts, a run counts. -/
theorem Tally.of_schedule {d : D} (hd : S.init d) {schedule : List (Move ι D W L R ε)}
    (hschedule : ∀ m ∈ schedule, S.Allows m) {n : ℕ} {b : Bench ι D W L R ε}
    (h : Bench.tally allowed counted { db := d } schedule = some (n, b)) :
    S.Tally (fun d d' => allowed d d' = true) (fun d d' => counted d d' = true) n b.world := by
  have hrun : ∀ (ms : List (Move ι D W L R ε)) (n' : ℕ) (b' : Bench ι D W L R ε),
      (∀ m ∈ ms, S.Allows m) →
      S.Tally (fun d d' => allowed d d' = true) (fun d d' => counted d d' = true) n' b'.world →
      ms.foldlM (Bench.tallyMove allowed counted) (n', b') = some (n, b) →
      S.Tally (fun d d' => allowed d d' = true) (fun d d' => counted d d' = true) n b.world := by
    intro ms
    induction ms with
    | nil =>
      intro n' b' _ hb hplay
      cases hplay
      exact hb
    | cons m ms ih =>
      intro n' b' hms hb hplay
      rw [List.foldlM_cons] at hplay
      obtain ⟨⟨n₁, b₁⟩, hmove, hrest⟩ := Option.bind_eq_some_iff.mp hplay
      have hnext := hb.tallyMove (hms m List.mem_cons_self) hmove
      exact ih n₁ b₁ (fun m' hm => hms m' (List.mem_cons_of_mem _ hm)) hnext hrest
  exact hrun schedule 0 { db := d } hschedule (.init ⟨hd, rfl, fun _ => rfl⟩) h

end System
end Quantive.ReadCommitted
