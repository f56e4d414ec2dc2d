import Mathlib.Logic.Function.Basic
import Mathlib.Data.List.Basic

/-!
# Programs of one database session

A session alternates statements of a transaction (reads of the committed rows
under its own uncommitted writes, row and advisory locks, writes) with commits,
rollbacks and questions to its surroundings. `Prog` is the free monad over these
operations, so that a service method is written once, in `do` notation, and the
interleaving semantics (`World`), the program logic (`Wp`) and the execution of one
session alone (`Exec`) are read off the same definition.
-/

namespace Quantive.ReadCommitted

/-- What a logged write does to the committed database. -/
class Store (D : outParam Type) (W : Type) where
  apply : W → D → D

/-- `D` is the database, `W` the logged writes, `L` the lock names, `R q` the answers to
a question `q` and `ε` the exceptions. `halt` is a session that never continues. -/
inductive Prog (D W L : Type) {Q : Type} (R : Q → Type) (ε α : Type) where
  | ret (a : α)
  | fail (e : ε)
  | halt
  | read (k : D → Prog D W L R ε α)
  | lock (l : L) (k : Prog D W L R ε α)
  | tryLock (l : L) (k : Bool → Prog D W L R ε α)
  | write (w : W) (k : Prog D W L R ε α)
  | fresh (k : ℕ → Prog D W L R ε α)
  | commit (k : Prog D W L R ε α)
  | rollback (k : Prog D W L R ε α)
  | ask (q : Q) (k : R q → Prog D W L R ε α)

namespace Prog
variable {D W L Q : Type} {R : Q → Type} {ε α β : Type}

def bind : Prog D W L R ε α → (α → Prog D W L R ε β) → Prog D W L R ε β
  | ret a, f => f a
  | fail e, _ => fail e
  | halt, _ => halt
  | read k, f => read fun d => (k d).bind f
  | lock l k, f => lock l (k.bind f)
  | tryLock l k, f => tryLock l fun b => (k b).bind f
  | write w k, f => write w (k.bind f)
  | fresh k, f => fresh fun n => (k n).bind f
  | commit k, f => commit (k.bind f)
  | rollback k, f => rollback (k.bind f)
  | ask q k, f => ask q fun r => (k r).bind f

/-- The outcome of a program as a value: an exception no longer escapes. -/
def attempt : Prog D W L R ε α → Prog D W L R ε (Except ε α)
  | ret a => ret (.ok a)
  | fail e => ret (.error e)
  | halt => halt
  | read k => read fun d => (k d).attempt
  | lock l k => lock l k.attempt
  | tryLock l k => tryLock l fun b => (k b).attempt
  | write w k => write w k.attempt
  | fresh k => fresh fun n => (k n).attempt
  | commit k => commit k.attempt
  | rollback k => rollback k.attempt
  | ask q k => ask q fun r => (k r).attempt

instance : Monad (Prog D W L R ε) where
  pure := ret
  bind := bind

theorem bind_ret (p : Prog D W L R ε α) : p.bind ret = p := by
  induction p with
  | ret a => rfl
  | fail e => rfl
  | halt => rfl
  | read k ih => exact congrArg read (funext ih)
  | lock l k ih => exact congrArg (lock l) ih
  | tryLock l k ih => exact congrArg (tryLock l) (funext ih)
  | write w k ih => exact congrArg (write w) ih
  | fresh k ih => exact congrArg fresh (funext ih)
  | commit k ih => exact congrArg commit ih
  | rollback k ih => exact congrArg rollback ih
  | ask q k ih => exact congrArg (ask q) (funext ih)

theorem bind_bind {γ : Type} (p : Prog D W L R ε α) (f : α → Prog D W L R ε β)
    (g : β → Prog D W L R ε γ) : (p.bind f).bind g = p.bind fun a => (f a).bind g := by
  induction p with
  | ret a => rfl
  | fail e => rfl
  | halt => rfl
  | read k ih => exact congrArg read (funext ih)
  | lock l k ih => exact congrArg (lock l) ih
  | tryLock l k ih => exact congrArg (tryLock l) (funext ih)
  | write w k ih => exact congrArg (write w) ih
  | fresh k ih => exact congrArg fresh (funext ih)
  | commit k ih => exact congrArg commit ih
  | rollback k ih => exact congrArg rollback ih
  | ask q k ih => exact congrArg (ask q) (funext ih)

instance : LawfulMonad (Prog D W L R ε) :=
  LawfulMonad.mk' _ bind_ret (fun _ _ => rfl) bind_bind

/-! ### The operations as monadic actions -/

def view : Prog D W L R ε D := read ret
def acquire (l : L) : Prog D W L R ε Unit := lock l (ret ())
def tryAcquire (l : L) : Prog D W L R ε Bool := tryLock l ret
def emit (w : W) : Prog D W L R ε Unit := write w (ret ())
def draw : Prog D W L R ε ℕ := fresh ret
def commitNow : Prog D W L R ε Unit := commit (ret ())
def rollbackNow : Prog D W L R ε Unit := rollback (ret ())
def query (q : Q) : Prog D W L R ε (R q) := ask q ret
def raise (e : ε) : Prog D W L R ε α := fail e
def stuck : Prog D W L R ε α := halt

/-- Commit what `p` did, or roll it back and let its exception through. -/
def transaction (p : Prog D W L R ε α) : Prog D W L R ε α := do
  match ← p.attempt with
  | .ok a => commitNow; pure a
  | .error e => rollbackNow; raise e

/-- The loop `for x in xs`, left to right. -/
def forEach {γ : Type} (f : γ → Prog D W L R ε Unit) : List γ → Prog D W L R ε Unit
  | [] => pure ()
  | x :: xs => do f x; forEach f xs

/-- The loop that keeps what `f` returns, in order. -/
def collect {γ : Type} (f : γ → Prog D W L R ε (Option β)) :
    List γ → Prog D W L R ε (List β)
  | [] => pure []
  | x :: xs => do
    let y ← f x
    let ys ← collect f xs
    pure (y.toList ++ ys)

/-- No further statement of the program runs: it returned or raised. -/
def finished : Prog D W L R ε α → Bool
  | ret _ => true
  | fail _ => true
  | _ => false

end Prog
end Quantive.ReadCommitted
