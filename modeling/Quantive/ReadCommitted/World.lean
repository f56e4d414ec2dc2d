import Mathlib.Logic.Relation
import Quantive.ReadCommitted.Prog

/-!
# Interleavings of sessions under READ COMMITTED

A world is the committed database and one session for every index. A statement
reads the database as committed at that instant with the session's own writes on
top; the writes of a transaction reach the database together at its commit; a lock
is exclusive and is held until the transaction ends. Any running session may take
the next step, and any session may crash, which drops its uncommitted writes.
-/

namespace Quantive.ReadCommitted
variable {D W L Q ι : Type} {R : Q → Type} {ε : Type}

/-- What a session holds besides its program: locks until the end of the transaction, the
fresh names it drew, and its uncommitted writes, oldest first. -/
structure Ctx (W L : Type) where
  held : List L := []
  owned : List ℕ := []
  log : List W := []

namespace Ctx

def hold (c : Ctx W L) (l : L) : Ctx W L := { c with held := l :: c.held }
def own (c : Ctx W L) (n : ℕ) : Ctx W L := { c with owned := n :: c.owned }
def push (c : Ctx W L) (w : W) : Ctx W L := { c with log := c.log ++ [w] }
/-- The end of a transaction: its locks and its writes are gone, drawn names stay drawn. -/
def release (c : Ctx W L) : Ctx W L := { owned := c.owned }

/-- The database as the session sees it. -/
def view [Store D W] (c : Ctx W L) (d : D) : D := c.log.foldl (fun d w => Store.apply w d) d

@[simp] theorem hold_log (c : Ctx W L) (l : L) : (c.hold l).log = c.log := rfl
@[simp] theorem hold_owned (c : Ctx W L) (l : L) : (c.hold l).owned = c.owned := rfl
@[simp] theorem hold_held (c : Ctx W L) (l : L) : (c.hold l).held = l :: c.held := rfl
@[simp] theorem own_log (c : Ctx W L) (n : ℕ) : (c.own n).log = c.log := rfl
@[simp] theorem own_held (c : Ctx W L) (n : ℕ) : (c.own n).held = c.held := rfl
@[simp] theorem own_owned (c : Ctx W L) (n : ℕ) : (c.own n).owned = n :: c.owned := rfl
@[simp] theorem push_held (c : Ctx W L) (w : W) : (c.push w).held = c.held := rfl
@[simp] theorem push_owned (c : Ctx W L) (w : W) : (c.push w).owned = c.owned := rfl
@[simp] theorem push_log (c : Ctx W L) (w : W) : (c.push w).log = c.log ++ [w] := rfl
@[simp] theorem release_held (c : Ctx W L) : c.release.held = [] := rfl
@[simp] theorem release_owned (c : Ctx W L) : c.release.owned = c.owned := rfl
@[simp] theorem release_log (c : Ctx W L) : c.release.log = [] := rfl
@[simp] theorem view_hold [Store D W] (c : Ctx W L) (l : L) (d : D) :
    (c.hold l).view d = c.view d := rfl
@[simp] theorem view_own [Store D W] (c : Ctx W L) (n : ℕ) (d : D) :
    (c.own n).view d = c.view d := rfl
@[simp] theorem view_release [Store D W] (c : Ctx W L) (d : D) : c.release.view d = d := rfl
@[simp] theorem view_push [Store D W] (c : Ctx W L) (w : W) (d : D) :
    (c.push w).view d = Store.apply w (c.view d) := by
  simp [view, push]

end Ctx

structure Session (D W L : Type) {Q : Type} (R : Q → Type) (ε : Type) where
  prog : Prog D W L R ε Unit
  ctx : Ctx W L

/-- `names` is the first name that no session has drawn yet. -/
structure World (ι D W L : Type) {Q : Type} (R : Q → Type) (ε : Type) where
  db : D
  names : ℕ
  sessions : ι → Session D W L R ε

/-- One step of a session: `free l` tells that no other session holds `l`, and `ans` answers
its questions. The result is the committed database, the next name and the session. -/
def advance [Store D W] (free : L → Bool) (ans : (q : Q) → R q) (d : D) (n : ℕ) :
    Session D W L R ε → Option (D × ℕ × Session D W L R ε)
  | ⟨.ret _, _⟩ => none
  | ⟨.fail _, _⟩ => none
  | ⟨.halt, _⟩ => none
  | ⟨.read k, c⟩ => some (d, n, ⟨k (c.view d), c⟩)
  | ⟨.lock l k, c⟩ => if free l then some (d, n, ⟨k, c.hold l⟩) else none
  | ⟨.tryLock l k, c⟩ =>
    if free l then some (d, n, ⟨k true, c.hold l⟩) else some (d, n, ⟨k false, c⟩)
  | ⟨.write w k, c⟩ => some (d, n, ⟨k, c.push w⟩)
  | ⟨.fresh k, c⟩ => some (d, n + 1, ⟨k n, c.own n⟩)
  | ⟨.commit k, c⟩ => some (c.view d, n, ⟨k, c.release⟩)
  | ⟨.rollback k, c⟩ => some (d, n, ⟨k, c.release⟩)
  | ⟨.ask q k, c⟩ => some (d, n, ⟨k (ans q), c⟩)

inductive Label (ι : Type) where
  | run (i : ι)
  | start (i : ι)
  | crash (i : ι)

/-- A system: the answers the surroundings may give, the programs each session may be
started with, and the initial databases. -/
structure System (ι D W L : Type) {Q : Type} (R : Q → Type) (ε : Type) where
  oracle : (q : Q) → R q → Prop
  programs : ι → Prog D W L R ε Unit → Prop
  init : D → Prop

namespace System
variable [Store D W] [DecidableEq ι] (S : System ι D W L R ε)

/-- `free` is the availability of the locks to session `i`. -/
def Free (w : World ι D W L R ε) (i : ι) (free : L → Bool) : Prop :=
  ∀ l, free l = true ↔ ∀ j, j ≠ i → l ∉ (w.sessions j).ctx.held

/-- `ans` answers what session `i` asks in its next step. -/
def Answers (w : World ι D W L R ε) (i : ι) (ans : (q : Q) → R q) : Prop :=
  match (w.sessions i).prog with
  | .ask q _ => S.oracle q (ans q)
  | _ => True

inductive Step (w : World ι D W L R ε) : Label ι → World ι D W L R ε → Prop
  | run {i : ι} {free : L → Bool} {ans : (q : Q) → R q} {d : D} {n : ℕ}
      {s : Session D W L R ε} (hf : Free w i free) (ha : S.Answers w i ans)
      (hs : advance free ans w.db w.names (w.sessions i) = some (d, n, s)) :
      Step w (.run i) ⟨d, n, Function.update w.sessions i s⟩
  | start {i : ι} {p : Prog D W L R ε Unit} (hi : (w.sessions i).prog.finished)
      (hp : S.programs i p) :
      Step w (.start i) ⟨w.db, w.names, Function.update w.sessions i ⟨p, {}⟩⟩
  | crash {i : ι} :
      Step w (.crash i) ⟨w.db, w.names, Function.update w.sessions i ⟨.ret (), {}⟩⟩

/-- A database before any session was started. -/
def Initial (w : World ι D W L R ε) : Prop :=
  S.init w.db ∧ w.names = 0 ∧ ∀ i, w.sessions i = ⟨.ret (), {}⟩

inductive Reachable : World ι D W L R ε → Prop
  | init {w} : S.Initial w → Reachable w
  | step {w l w'} : Reachable w → S.Step w l w' → Reachable w'

/-- Some steps lead from one world to another. -/
def Leads : World ι D W L R ε → World ι D W L R ε → Prop :=
  Relation.ReflTransGen fun w w' => ∃ l, S.Step w l w'

theorem Reachable.leads {S : System ι D W L R ε} {w w' : World ι D W L R ε} (hw : S.Reachable w)
    (h : S.Leads w w') : S.Reachable w' := by
  induction h with
  | refl => exact hw
  | tail _ hs ih =>
    obtain ⟨l, hs⟩ := hs
    exact .step ih hs

/-- A step changes the committed database by a commit alone. -/
theorem Step.db_cases {S : System ι D W L R ε} {w w' : World ι D W L R ε} {l : Label ι}
    (h : S.Step w l w') : w'.db = w.db ∨ ∃ i k, l = .run i ∧
      (w.sessions i).prog = .commit k ∧ w'.db = (w.sessions i).ctx.view w.db := by
  cases h with
  | start => exact Or.inl rfl
  | crash => exact Or.inl rfl
  | @run i free ans d n s hf ha hs =>
    rcases hsess : w.sessions i with ⟨p, c⟩
    rw [hsess] at hs
    cases p with
    | ret a => cases hs
    | fail e => cases hs
    | halt => cases hs
    | commit k =>
      cases hs
      exact Or.inr ⟨i, k, rfl, by rw [hsess], by rw [hsess]⟩
    | lock m k =>
      by_cases hm : free m
      · simp only [advance, hm, if_true, Option.some.injEq] at hs
        cases hs
        exact Or.inl rfl
      · simp [advance, hm] at hs
    | tryLock m k =>
      by_cases hm : free m
      · simp only [advance, hm, if_true, Option.some.injEq] at hs
        cases hs
        exact Or.inl rfl
      · simp only [advance, hm, Bool.false_eq_true, if_false, Option.some.injEq] at hs
        cases hs
        exact Or.inl rfl
    | _ =>
      cases hs
      exact Or.inl rfl

/-- A property of every reachable world. -/
def Invariant (P : World ι D W L R ε → Prop) : Prop := ∀ w, S.Reachable w → P w

end System
end Quantive.ReadCommitted
