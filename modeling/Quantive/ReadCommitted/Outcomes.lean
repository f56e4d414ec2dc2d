import Quantive.ReadCommitted.Triple

/-!
# Outcomes

A triple says the same of every exception. A contract says what holds after each, so that a call can
be held to the reason it gives its caller.
-/

namespace Quantive.ReadCommitted
variable {D W L Q ι : Type} {R : Q → Type} {ε α β : Type}

/-- What holds after the outcome of a program. -/
def Outcome (Post : α → Ctx W L → D → Prop) (Raised : ε → Ctx W L → D → Prop) :
    Except ε α → Ctx W L → D → Prop
  | .ok a => Post a
  | .error e => Raised e

namespace Protocol
open Prog
variable [Store D W] (P : Protocol ι D L) (O : (q : Q) → R q → Prop) (i : ι)

def Contract (Pre : Ctx W L → D → Prop) (p : Prog D W L R ε α) (Post : α → Ctx W L → D → Prop)
    (Raised : ε → Ctx W L → D → Prop) : Prop :=
  ∀ c d, Pre c d → P.wp O i p (Outcome Post Raised) c d

variable {P O i} {J Pre Pre' : Ctx W L → D → Prop} {p : Prog D W L R ε α}
  {Post Post' : α → Ctx W L → D → Prop} {Raised Raised' : ε → Ctx W L → D → Prop}

theorem Triple.contract (h : P.Triple O i J Pre p Post) : P.Contract O i Pre p Post fun _ => J := by
  intro c d hd
  refine wp_mono (h c d hd) fun r c d hr => ?_
  cases r with
  | ok a => exact hr
  | error e => exact hr

theorem Contract.triple (h : P.Contract O i Pre p Post fun _ => J) : P.Triple O i J Pre p Post := by
  intro c d hd
  refine wp_mono (h c d hd) fun r c d hr => ?_
  cases r with
  | ok a => exact hr
  | error e => exact hr

theorem Contract.conseq (h : P.Contract O i Pre p Post Raised) (hpre : ∀ c d, Pre' c d → Pre c d)
    (hpost : ∀ a c d, Post a c d → Post' a c d) (hraised : ∀ e c d, Raised e c d → Raised' e c d) :
    P.Contract O i Pre' p Post' Raised' := by
  intro c d hd
  refine wp_mono (h c d (hpre c d hd)) fun r c d hr => ?_
  cases r with
  | ok a => exact hpost a c d hr
  | error e => exact hraised e c d hr

theorem Contract.bind {f : α → Prog D W L R ε β} {Last : β → Ctx W L → D → Prop}
    (hp : P.Contract O i Pre p Post Raised) (hf : ∀ a, P.Contract O i (Post a) (f a) Last Raised) :
    P.Contract O i Pre (p >>= f) Last Raised := by
  intro c d hd
  refine wp_bind (wp_mono (hp c d hd) fun r c d hr => ?_)
  cases r with
  | ok a => exact hf a c d hr
  | error e => exact hr

/-- A first part that raises nothing, with the assertion in the middle written out. -/
theorem Contract.seq (Mid : α → Ctx W L → D → Prop) {f : α → Prog D W L R ε β}
    {Last : β → Ctx W L → D → Prop} (hp : P.Triple O i (fun _ _ => False) Pre p Mid)
    (hf : ∀ a, P.Contract O i (Mid a) (f a) Last Raised) : P.Contract O i Pre (p >>= f) Last Raised :=
  Contract.bind (hp.contract.conseq (fun _ _ h => h) (fun _ _ _ h => h) fun _ _ _ h => h.elim) hf

theorem contract_pure {a : α} (h : ∀ c d, Pre c d → Post a c d) :
    P.Contract O i Pre (pure a : Prog D W L R ε α) Post Raised := h

theorem contract_raise {e : ε} (h : ∀ c d, Pre c d → Raised e c d) :
    P.Contract O i Pre (raise e : Prog D W L R ε α) Post Raised := h

/-- The outcome is a value, whatever the caller raises later. -/
theorem Contract.attempt (hp : P.Contract O i Pre p Post Raised) :
    P.Triple O i J Pre p.attempt (Outcome Post Raised) :=
  fun c d hd => wp_attempt (hp c d hd)

theorem Contract.transaction {Bad : ε → Ctx W L → D → Prop} {Done : α → Ctx W L → D → Prop}
    (hp : P.Contract O i Pre p Done Bad)
    (hb : ∀ e c d d', Bad e c d → P.Env i c d d' → Raised e c.release d')
    (hc : ∀ a c d d', Done a c d → P.Env i c d d' →
      P.Guar i c d' (c.view d') ∧ Post a c.release (c.view d')) :
    P.Contract O i Pre (transaction p) Post Raised := by
  intro c d hd
  refine wp_bind (wp_attempt (wp_mono (hp c d hd) fun r c d hr => ?_))
  cases r with
  | ok a => exact fun d' he => hc a c d d' hr he
  | error e => exact fun d' he => hb e c d d' hr he

end Protocol
end Quantive.ReadCommitted
