import Quantive.ReadCommitted.Triple

/-!
# Programs of a part inside a whole

A store that holds another one among its parts runs the programs of that part: they read their
part and write, lock, ask and raise under the names that the whole has for it.
-/

namespace Quantive.ReadCommitted
variable {D W L Q D' W' L' Q' : Type} {R : Q → Type} {R' : Q' → Type} {ε ε' α : Type}

structure Embedding (D W L : Type) {Q : Type} (R : Q → Type) (ε D' W' L' : Type) {Q' : Type}
    (R' : Q' → Type) (ε' : Type) where
  part : D' → D
  write : W → W'
  lock : L → L'
  question : Q → Q'
  answer : (q : Q) → R' (question q) → R q
  failure : ε → ε'

namespace Prog
variable (E : Embedding D W L R ε D' W' L' R' ε')

def embed : Prog D W L R ε α → Prog D' W' L' R' ε' α
  | ret a => ret a
  | fail e => fail (E.failure e)
  | halt => halt
  | read k => read fun d => (k (E.part d)).embed
  | lock l k => lock (E.lock l) k.embed
  | tryLock l k => tryLock (E.lock l) fun b => (k b).embed
  | write w k => write (E.write w) k.embed
  | fresh k => fresh fun n => (k n).embed
  | commit k => commit k.embed
  | rollback k => rollback k.embed
  | ask q k => ask (E.question q) fun r => (k (E.answer q r)).embed

variable {E}

/-- A program of the part writes to the part alone. -/
theorem emits_embed {O : (q : Q') → R' q → Prop} (p : Prog D W L R ε α) :
    (p.embed E).Emits O (fun w => ∃ x, w = E.write x) fun _ => True := by
  induction p with
  | ret a => trivial
  | fail e => trivial
  | halt => trivial
  | read k ih => exact fun d => ih _
  | lock l k ih => exact ih
  | tryLock l k ih => exact fun b => ih b
  | write w k ih => exact ⟨⟨w, rfl⟩, ih⟩
  | fresh k ih => exact fun n => ih n
  | commit k ih => exact ih
  | rollback k ih => exact ih
  | ask q k ih => exact ⟨trivial, fun r _ => ih _⟩

theorem Open.embed {p : Prog D W L R ε α} (hp : p.Open) : (p.embed E).Open := by
  induction p with
  | ret a => trivial
  | fail e => trivial
  | halt => trivial
  | read k ih => exact fun d => ih _ (hp _)
  | lock l k ih => exact ih hp
  | tryLock l k ih => exact fun b => ih b (hp b)
  | write w k ih => exact ih hp
  | fresh k ih => exact fun n => ih n (hp n)
  | commit k ih => exact hp.elim
  | rollback k ih => exact hp.elim
  | ask q k ih => exact fun r => ih _ (hp _)

end Prog
end Quantive.ReadCommitted
