import Quantive.Candles.Coverage
import Quantive.Candles.Finality

/-!
# Offers

An upsert offers the content of a candle to the row of its key. Where the protocol lets nobody
else change a locked row, a transaction sees the database with all its offers made, in
order, whatever happens in between.
-/

namespace Quantive.Candles
open Quantive.ReadCommitted Prog

/-! ### Contents -/

/-- A stored candle but for its revision. -/
structure Content where
  values : Ohlcv
  source : String
  sourceEventTime : Option ℤ
  sourceReceivedAt : Option ℤ
  deriving DecidableEq

def StoredCandle.content (row : StoredCandle) : Content :=
  ⟨row.values, row.source, row.sourceEventTime, row.sourceReceivedAt⟩

def Database.content (d : Database) (key : CandleKey) : Option Content :=
  (d.raw.lookup key).map StoredCandle.content

def Database.stagedContent (d : Database) (key : CandleKey) : Option Content :=
  (d.staging.lookup key).map StoredCandle.content

/-- What the conflict clause makes of a row and a proposed one. -/
def Content.offer (old : Option Content) (new : Content) : Content :=
  match old with
  | none => new
  | some old =>
    if old.values ≠ new.values ∧ sourcePriority old.source ≤ sourcePriority new.source then new
    else old

def Content.offers (old : Option Content) (news : List Content) : Option Content :=
  news.foldl (fun row new => some (Content.offer row new)) old

@[simp] theorem Content.offers_nil (old : Option Content) : Content.offers old [] = old := rfl

theorem Content.offers_append (old : Option Content) (news more : List Content) :
    Content.offers old (news ++ more) = Content.offers (Content.offers old news) more :=
  List.foldl_append

@[simp] theorem StoredCandle.withRevision_content (row : StoredCandle) (n : ℕ) :
    (row.withRevision n).content = row.content := rfl

theorem conflictUpdate_content (old new : StoredCandle) :
    ((conflictUpdate old new).getD old).content = Content.offer (some old.content) new.content := by
  unfold conflictUpdate Content.offer ohlcvChanged
  by_cases hv : old.values = new.values
  · simp [hv, StoredCandle.content]
  · by_cases hp : sourcePriority old.source ≤ sourcePriority new.source
    · simp [hv, hp, StoredCandle.content, StoredCandle.withRevision]
    · simp [hv, hp, StoredCandle.content]

theorem Database.rawAfter_content (d : Database) (key : CandleKey) (new : StoredCandle) :
    ((d.rawAfter key new).lookup key).map StoredCandle.content =
      some (Content.offer (d.content key) new.content) := by
  unfold Database.rawAfter Database.accepted Database.content
  cases hold : d.raw.lookup key with
  | none => simp [insertedRow, Content.offer]
  | some old =>
    have hcontent := conflictUpdate_content old new
    cases hrow : conflictUpdate old new with
    | none => simpa [hold, hrow] using hcontent
    | some row => simpa [hrow] using hcontent

/-- The offer a candle makes, unless a constraint rejects it. -/
def Candle.offer (c : Candle) : Option (CandleKey × Content) :=
  c.excluded.map fun new => (c.key, new.content)

def offersFor (key : CandleKey) (offered : List (CandleKey × Content)) : List Content :=
  offered.filterMap fun o => if o.1 = key then some o.2 else none

theorem offersFor_append (key : CandleKey) (offered more : List (CandleKey × Content)) :
    offersFor key (offered ++ more) = offersFor key offered ++ offersFor key more :=
  List.filterMap_append

theorem offersFor_eq_nil {key : CandleKey} {offered : List (CandleKey × Content)}
    (h : ∀ o ∈ offered, o.1 ≠ key) : offersFor key offered = [] :=
  List.filterMap_eq_nil_iff.mpr fun o ho => if_neg (h o ho)

/-! ### A transaction of upserts -/

/-- A locked row is left alone by the others. -/
structure LocksRows {ι : Type} (P : Protocol ι Database Lock) : Prop where
  raw : ∀ i held owned d d', P.Rely i held owned d d' → ∀ key, .rawCandle key ∈ held →
    d'.raw.lookup key = d.raw.lookup key
  staged : ∀ i held owned d d', P.Rely i held owned d d' → ∀ key, .stagedCandle key ∈ held →
    d'.staging.lookup key = d.staging.lookup key

theorem locksRows_solo : LocksRows (Protocol.solo Database Lock) where
  raw _ _ _ _ _ h key _ := by rw [show _ = _ from h]
  staged _ _ _ _ _ h key _ := by rw [show _ = _ from h]

/-- What the session sees is the database with the offers made; it holds their rows. -/
structure Upserted (offered : List (CandleKey × Content)) (c : Ctx Write Lock) (d : Database) :
    Prop where
  held : ∀ o ∈ offered, .rawCandle o.1 ∈ c.held
  untouched : ∀ key, (∀ o ∈ offered, o.1 ≠ key) → ∀ d, (c.view d).raw.lookup key = d.raw.lookup key
  content : ∀ key, (c.view d).content key =
    Content.offers (d.content key) (offersFor key offered)

/-- The writes that are not to raw rows. -/
def NoRaw : Write → Prop
  | .putRaw _ _ _ => False
  | .deleteRaw _ => False
  | _ => True

theorem NoRaw.apply {w : Write} (h : NoRaw w) (d : Database) : (Store.apply w d).raw = d.raw := by
  rw [apply_raw]
  cases w <;> first | rfl | exact h.elim

section
open Protocol
variable {ι : Type} {P : Protocol ι Database Lock} {O : (q : Question) → Answer q → Prop} {i : ι}
  {offered : List (CandleKey × Content)} {c c' : Ctx Write Lock} {d d' : Database}

theorem Upserted.start (hlog : ∀ w ∈ c.log, NoRaw w) : Upserted [] c d := by
  have hview : ∀ d, (c.view d).raw = d.raw := by
    obtain ⟨held, owned, log⟩ := c
    intro d
    simp only [Ctx.view]
    induction log generalizing d with
    | nil => rfl
    | cons w log ih =>
      rw [List.foldl_cons, ih fun v hv => hlog v (List.mem_cons_of_mem _ hv)]
      exact (hlog w List.mem_cons_self).apply d
  refine ⟨fun o ho => absurd ho List.not_mem_nil, fun key _ d => by rw [hview], fun key => ?_⟩
  simp only [Database.content, hview]
  rfl

theorem Upserted.stable (hP : LocksRows P) (h : Upserted offered c d) (he : P.Env i c d d') :
    Upserted offered c d' := by
  refine ⟨h.held, h.untouched, fun key => ?_⟩
  by_cases hkey : ∀ o ∈ offered, o.1 ≠ key
  · rw [offersFor_eq_nil hkey, Database.content, h.untouched key hkey]
    rfl
  · simp only [not_forall, not_not] at hkey
    obtain ⟨o, ho, rfl⟩ := hkey
    have hsame := hP.raw i _ _ _ _ he.1 o.1 (h.held o ho)
    have hcontent := h.content o.1
    simp only [Database.content] at hcontent ⊢
    rw [hsame, ← hcontent]
    rcases view_raw c o.1 with huntouched | ⟨v, hv, -⟩
    · rw [huntouched, huntouched, hsame]
    · rw [hv, hv]

theorem Upserted.hold (h : Upserted offered c d) (l : Lock) : Upserted offered (c.hold l) d :=
  ⟨fun o ho => List.mem_cons_of_mem _ (h.held o ho), h.untouched, h.content⟩

theorem Upserted.push (h : Upserted offered c d) {w : Write} (hw : NoRaw w) :
    Upserted offered (c.push w) d := by
  refine ⟨h.held, fun key hkey d => ?_, fun key => ?_⟩
  · rw [Ctx.view_push, hw.apply, h.untouched key hkey]
  · rw [← h.content key, Ctx.view_push, Database.content, hw.apply]
    rfl

/-- One more offer: the key's row is the one the statement leaves, the others are untouched. -/
theorem Upserted.offer (h : Upserted offered c d) {key : CandleKey} {new : StoredCandle}
    (hlock : .rawCandle key ∈ c.held) (hheld : c'.held = c.held)
    (hkey : (c'.view d).raw.lookup key = ((c.view d).rawAfter key new).lookup key)
    (hother : ∀ other, other ≠ key → ∀ d,
      (c'.view d).raw.lookup other = (c.view d).raw.lookup other) :
    Upserted (offered ++ [(key, new.content)]) c' d := by
  refine ⟨fun o ho => ?_, fun other hnone d => ?_, fun other => ?_⟩
  · rw [hheld]
    rcases List.mem_append.mp ho with ho | ho
    · exact h.held o ho
    · rw [List.mem_singleton.mp ho]
      exact hlock
  · have hne : other ≠ key := Ne.symm (hnone (key, new.content) (by simp))
    rw [hother other hne, h.untouched other fun o ho => hnone o (List.mem_append_left _ ho)]
  · rw [offersFor_append, Content.offers_append, ← h.content other]
    by_cases hk : other = key
    · subst hk
      rw [Database.content, hkey, Database.rawAfter_content]
      simp [offersFor, Content.offers]
    · have hnone : offersFor other [(key, new.content)] = [] := by
        refine offersFor_eq_nil fun o ho => ?_
        rw [List.mem_singleton.mp ho]
        exact Ne.symm hk
      rw [hnone, Content.offers_nil, Database.content, hother other hk]
      rfl

/-- A transaction body that leaves the raw rows alone. -/
theorem triple_upserted {α : Type} {S : Write → Prop} {A : Question → Prop} (hP : LocksRows P)
    {p : Task α} (hp : p.Emits O S A) (hS : ∀ w, S w → NoRaw w) (hopen : p.Open) :
    P.Triple O i (fun _ _ => True) (Upserted offered) p fun _ => Upserted offered :=
  triple_of_open (fun _ _ _ h he => h.stable hP he) (fun _ _ l h => h.hold l)
    (fun _ _ _ h _ _ => ⟨h.held, h.untouched, h.content⟩) (fun _ _ _ => trivial)
    (fun w hw _ _ h => h.push (hS w hw)) hp hopen

theorem RevisionWrite.noRaw {w : Write} (h : RevisionWrite w) : NoRaw w := by
  cases w <;> first | exact h | trivial

theorem RangeWrite.noRaw {w : Write} (h : RangeWrite w) : NoRaw w := by
  cases w <;> first | exact h | trivial

theorem StagedWrite.noRaw {w : Write} (h : StagedWrite w) : NoRaw w := by
  cases w <;> first | exact h | trivial

theorem triple_appendRevision (hP : LocksRows P) (key : CandleKey) (row : StoredCandle) :
    P.Triple O i (fun _ _ => True) (Upserted offered) (appendRevision key row)
      fun _ => Upserted offered :=
  triple_upserted (A := fun _ => True) hP (emits_appendRevision key row)
    (fun _ => RevisionWrite.noRaw) (open_appendRevision key row)

/-- The upsert of a candle makes its offer. -/
theorem upsertRawCandle_offers (hP : LocksRows P) (writer : Writer) (candle : Candle) :
    P.Triple O i (fun _ _ => True) (Upserted offered) (upsertRawCandle writer candle)
      fun _ c d => candle.excluded.isSome ∧ Upserted (offered ++ candle.offer.toList) c d := by
  unfold Candle.offer
  cases hnew : candle.excluded with
  | none =>
    unfold upsertRawCandle
    rw [hnew]
    exact triple_raise fun _ _ _ => trivial
  | some new =>
    rw [upsertRawCandle_eq writer hnew]
    let Locked (c : Ctx Write Lock) (d : Database) : Prop :=
      Upserted offered c d ∧ .rawCandle candle.key ∈ c.held
    refine Triple.seq (fun _ => Locked) (triple_acquire fun c d d' h he =>
      ⟨(h.stable hP he).hold _, List.mem_cons_self⟩) fun _ => ?_
    refine (triple_look fun c d d' h he => ⟨h.1.stable hP he, h.2⟩).bind fun s => ?_
    cases hacc : s.accepted candle.key new with
    | none =>
      refine triple_pure fun c d h => ⟨rfl, h.1.1.offer h.1.2 rfl ?_ fun _ _ _ => rfl⟩
      rw [← h.2, Database.rawAfter, hacc]
    | some row =>
      simp only [Option.elim, Database.enforce_accepted hacc, Bool.false_eq_true, if_false]
      refine Triple.seq (fun _ => Upserted (offered ++ [(candle.key, new.content)]))
        (triple_emit fun c d h => h.1.1.offer h.1.2 rfl ?_ ?_) fun _ => ?_
      · rw [← h.2, Database.rawAfter, hacc, Ctx.view_push, apply_raw, h.2]
      · intro key hk d
        rw [Ctx.view_push, apply_raw, AList.lookup_insert_ne hk]
      · exact (triple_appendRevision hP candle.key row).bind fun _ => triple_pure fun c d h => ⟨rfl, h⟩

theorem collectUpserts_offers (hP : LocksRows P) (writer : Writer) (candles : List Candle) :
    P.Triple O i (fun _ _ => True) (Upserted offered) (collect (upsertRawCandle writer) candles)
      fun _ c d => (∀ candle ∈ candles, candle.excluded.isSome) ∧
        Upserted (offered ++ candles.filterMap Candle.offer) c d := by
  let I (done : List Candle) (c : Ctx Write Lock) (d : Database) : Prop :=
    (∀ candle ∈ done, candle.excluded.isSome) ∧ Upserted (offered ++ done.filterMap Candle.offer) c d
  have hloop : P.Triple O i (fun _ _ => True) (I []) (collect (upsertRawCandle writer) candles)
      fun _ => I ([] ++ candles) := by
    refine triple_collect (I := I) (fun done candle => Triple.fact fun hdone => ?_) [] candles
    refine (upsertRawCandle_offers hP writer candle).post fun _ c d h => ⟨fun x hx => ?_, ?_⟩
    · rcases List.mem_append.mp hx with hx | hx
      · exact hdone x hx
      · rw [List.mem_singleton.mp hx]
        exact h.1
    · have happend : (done ++ [candle]).filterMap Candle.offer =
          done.filterMap Candle.offer ++ candle.offer.toList := by
        rw [List.filterMap_append]
        cases hoffer : candle.offer <;> simp [hoffer]
      rw [happend, ← List.append_assoc]
      exact h.2
  refine hloop.pre fun c d h => ⟨fun x hx => absurd hx List.not_mem_nil, ?_⟩
  rwa [List.filterMap_nil, List.append_nil]

theorem upsertRawCandles_offers (hP : LocksRows P) (writer : Writer) (candles : List Candle) :
    P.Triple O i (fun _ _ => True) (Upserted offered) (upsertRawCandles writer candles)
      fun _ c d => (∀ candle ∈ candles, candle.excluded.isSome) ∧
        Upserted (offered ++ candles.filterMap Candle.offer) c d := by
  refine (collectUpserts_offers hP writer candles).bind fun changed => Triple.fact fun hall => ?_
  have hrevisions : P.Triple O i (fun _ _ => True)
      (Upserted (offered ++ candles.filterMap Candle.offer))
      (forEach (fun r => appendRevision r.1 r.2) changed)
      fun _ => Upserted (offered ++ candles.filterMap Candle.offer) :=
    triple_upserted (A := fun _ => True) hP
      (Emits.forEach fun r _ => emits_appendRevision r.1 r.2) (fun _ => RevisionWrite.noRaw)
      (Open.forEach (fun r => open_appendRevision r.1 r.2) changed)
  exact hrevisions.bind fun _ => triple_pure fun c d h => ⟨hall, h⟩

/-- A raw batch offers each of its candles once. -/
theorem commitRawBatch_offers (hP : LocksRows P) (writer : Writer) (assetId : ℕ)
    (batch : List CandlePayload) :
    P.Triple O i (fun _ _ => True) (Upserted offered)
      (commitRawBatchInTransaction writer assetId batch) fun _ c d =>
        ∃ now candles, prepareBatch assetId now batch = .ok candles ∧
          (∀ candle ∈ candles, candle.excluded.isSome) ∧
          Upserted (offered ++ candles.filterMap Candle.offer) c d := by
  unfold commitRawBatchInTransaction
  cases batch with
  | nil =>
    refine triple_pure fun c d h => ⟨0, [], rfl, by simp, ?_⟩
    rwa [List.filterMap_nil, List.append_nil]
  | cons first rest =>
    have hopen {α : Type} {offered : List (CandleKey × Content)} {p : Task α}
        (hp : p.Emits O NoRaw fun _ => True) (ho : p.Open) :
        P.Triple O i (fun _ _ => True) (Upserted offered) p fun _ => Upserted offered :=
      triple_upserted hP hp (fun _ h => h) ho
    refine (hopen (emits_now anyQuestion) open_now).bind fun now => ?_
    cases hprepare : prepareBatch assetId now (first :: rest) with
    | error e => exact triple_raise fun _ _ _ => trivial
    | ok candles =>
      simp only [Task.ofExcept_ok_bind]
      refine (hopen (emits_acquire _) (open_acquire (.asset assetId))).bind fun _ => ?_
      refine (upsertRawCandles_offers hP writer candles).bind fun changed => Triple.fact fun hall => ?_
      refine (hopen (emits_ofExcept _) (open_ofExcept _)).bind fun blocks => ?_
      refine Triple.post (hopen ?_ (open_markVerifiedRawBlocks assetId blocks)) fun _ c d h =>
        ⟨now, candles, hprepare, hall, h⟩
      exact (emits_markVerifiedRawBlocks assetId blocks).mono fun _ => RangeWrite.noRaw

/-- A batch of a transaction offers its live candles. -/
theorem commitBatch_offers (hP : LocksRows P) (writer : Writer) (assetId : ℕ)
    {batch : List CandlePayload} (hbatch : batch ≠ []) :
    P.Triple O i (fun _ _ => True) (Upserted offered)
      (commitBatchInTransaction writer assetId batch) fun _ c d =>
        ∃ now, ∃ now' : ℤ, ∃ candles, O .now now' ∧ prepareBatch assetId now batch = .ok candles ∧
          Upserted (offered ++ (candles.filter fun c => now' - 7 * day ≤ c.key.timestamp).filterMap
            Candle.offer) c d := by
  have hopen {α : Type} {offered : List (CandleKey × Content)} {p : Task α}
      (hp : p.Emits O NoRaw fun _ => True) (ho : p.Open) :
      P.Triple O i (fun _ _ => True) (Upserted offered) p fun _ => Upserted offered :=
    triple_upserted hP hp (fun _ h => h) ho
  unfold commitBatchInTransaction
  rw [if_neg (by simpa using hbatch)]
  refine (hopen (emits_now anyQuestion) open_now).bind fun now => ?_
  cases hprepare : prepareBatch assetId now batch with
  | error e => exact triple_raise fun _ _ _ => trivial
  | ok candles =>
    simp only [Task.ofExcept_ok_bind]
    refine (hopen (emits_acquire _) (open_acquire (.asset assetId))).bind fun _ => ?_
    refine Triple.seq (fun now' c d => O .now now' ∧ Upserted offered c d)
      (triple_query fun c d r h hr => ⟨hr, h⟩) fun (now' : ℤ) =>
      Triple.fact fun hnow => ?_
    have hstaged : ∀ offered : List (CandleKey × Content), P.Triple O i (fun _ _ => True)
        (Upserted offered)
        (forEach upsertStagedCandle (candles.filter fun c => c.key.timestamp < now' - 7 * day))
        fun _ => Upserted offered := fun offered => hopen
      (Emits.forEach fun c _ => (emits_upsertStagedCandle c).mono fun _ => StagedWrite.noRaw)
      (Open.forEach open_upsertStagedCandle _)
    refine Triple.post ?_ fun _ c d h => ⟨now, now', candles, hnow, hprepare, h⟩
    split
    · refine (upsertRawCandles_offers hP writer _).bind fun changed => Triple.fact fun _ => ?_
      refine (hopen (emits_ofExcept _) (open_ofExcept _)).bind fun blocks => ?_
      refine Triple.bind (hopen ?_ (open_markVerifiedRawBlocks assetId blocks)) fun _ => hstaged _
      exact (emits_markVerifiedRawBlocks assetId blocks).mono fun _ => RangeWrite.noRaw
    · rename_i hnone
      have hempty : (candles.filter fun c => now' - 7 * day ≤ c.key.timestamp) = [] := by
        simpa using hnone
      rw [hempty, List.filterMap_nil, List.append_nil]
      exact hstaged _

end
end Quantive.Candles
