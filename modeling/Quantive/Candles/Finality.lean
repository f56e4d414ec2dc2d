import Quantive.PriorityRegister
import Quantive.ReadCommitted.Alone
import Quantive.Candles.Ingestion

/-!
# Finality of REST candles

A committed upsert of raw candles is, for every key, an offer to the register of the key
(`upsert_entry`), so what registers say of priorities holds of the sources. An upsert
that carries the stored values is dropped with its source: a REST candle that repeats a
WebSocket candle does not make it final.
-/

namespace Quantive.Candles
open Quantive.ReadCommitted Prog

/-- Answers of surroundings in which nothing happens. -/
def quiet : ℕ → (q : Question) → Answer q
  | _, .now => (0 : ℤ)
  | _, .fault => (none : Option Failure)
  | _, .ownershipLost => false
  | _, .klines _ => KlinesResponse.klines []

/-- The transaction of one `_upsert_raw_candles`: its rows or its exception, and the database
after the commit or the rollback. -/
def commitUpsert (d : Database) (writer : Writer) (cs : List Candle) :
    Option (Except Failure (List (CandleKey × StoredCandle)) × Database) :=
  (run quiet (transaction (upsertRawCandles writer cs)) { db := d }).map fun r => (r.1, r.2.db)

/-- The database after the transactions, one after the other. -/
def commitUpserts (d : Database) : List (Writer × List Candle) → Database
  | [] => d
  | (writer, cs) :: rest =>
    match commitUpsert d writer cs with
    | some (_, d') => commitUpserts d' rest
    | none => d

/-! ### What one upsert does to a key -/

def StoredCandle.entry (row : StoredCandle) : Entry Ohlcv ℕ := ⟨row.values, sourcePriority row.source⟩

/-- The register of a key. -/
def Database.entry (d : Database) (key : CandleKey) : Option (Entry Ohlcv ℕ) :=
  (d.raw.lookup key).map StoredCandle.entry

/-- What a statement offers to a key. -/
def offersTo (key : CandleKey) (cs : List Candle) : List (Entry Ohlcv ℕ) :=
  cs.filterMap fun c => if c.key = key then c.excluded.map StoredCandle.entry else none

/-- The row that the upsert of a proposed row writes. -/
def Database.accepted (d : Database) (key : CandleKey) (new : StoredCandle) : Option StoredCandle :=
  match d.raw.lookup key with
  | none => some (insertedRow (d.priorRevision key) new)
  | some old => conflictUpdate old new

/-- The upsert of a candle that meets the table's checks. -/
theorem upsertRawCandle_eq (writer : Writer) {c : Candle} {new : StoredCandle}
    (h : c.excluded = some new) :
    upsertRawCandle writer c = (do
      acquire (.rawCandle c.key)
      let d ← view
      (d.accepted c.key new).elim (pure none) fun row => do
        if ((d.raw.lookup c.key).bind (enforceRawCandleRevision · row)).isSome then
          raise (.database "DBAPIError")
        else
          emit (.putRaw writer c.key row)
          appendRevision c.key row
          pure (some (c.key, row))) := by
  unfold upsertRawCandle
  rw [h]
  refine congrArg (Prog.lock _) (congrArg Prog.read (funext fun d => ?_))
  change (match d.accepted c.key new with | none => _ | some row => _) = (d.accepted c.key new).elim _ _
  cases d.accepted c.key new <;> rfl

@[simp] theorem StoredCandle.withRevision_entry (row : StoredCandle) (n : ℕ) :
    (row.withRevision n).entry = row.entry := rfl

theorem Candle.excluded_eq {c : Candle} {new : StoredCandle} (h : c.excluded = some new) :
    new.source = c.source ∧ c.values = some new.values := by
  unfold Candle.excluded at h
  split at h
  · cases h
  · rename_i v hv
    split at h
    · cases h
      exact ⟨rfl, hv⟩
    · cases h

/-- The WHERE clause is the acceptance of the register. -/
theorem conflictUpdate_entry (old new : StoredCandle) :
    ((conflictUpdate old new).getD old).entry = Entry.offer (some old.entry) new.entry := by
  simp only [Entry.offer, conflictUpdate, ohlcvChanged, StoredCandle.entry]
  by_cases hv : new.values = old.values
  · simp [hv]
  · by_cases hp : sourcePriority old.source ≤ sourcePriority new.source
    · simp [hv, hp, Ne.symm hv, StoredCandle.withRevision]
    · simp [hp]

/-- The trigger never rejects what the WHERE clause let through. -/
theorem enforce_conflictUpdate {old new row : StoredCandle} (h : conflictUpdate old new = some row) :
    enforceRawCandleRevision old row = none := by
  unfold conflictUpdate at h
  by_cases hc : (ohlcvChanged old new && sourcePriority old.source ≤ sourcePriority new.source) = true
  · rw [if_pos hc] at h
    cases h
    simp only [Bool.and_eq_true, decide_eq_true_eq, ohlcvChanged, ne_eq] at hc
    have hprov : old.provenanceChanged (new.withRevision old.dataRevision) = true := by
      simp [StoredCandle.provenanceChanged, StoredCandle.withRevision, hc.1]
    unfold enforceRawCandleRevision
    rw [if_pos hprov, if_neg (by simpa [StoredCandle.withRevision] using hc.2),
      if_neg (by simp [StoredCandle.withRevision])]
  · rw [if_neg hc] at h
    cases h

theorem Database.enforce_accepted {d : Database} {key : CandleKey} {new row : StoredCandle}
    (h : d.accepted key new = some row) :
    ((d.raw.lookup key).bind (enforceRawCandleRevision · row)).isSome = false := by
  unfold Database.accepted at h
  cases hold : d.raw.lookup key with
  | none => rfl
  | some old =>
    rw [hold] at h
    simp [enforce_conflictUpdate h]

/-- The raw rows after the upsert of a proposed row. -/
def Database.rawAfter (d : Database) (key : CandleKey) (new : StoredCandle) :
    Table CandleKey StoredCandle :=
  match d.accepted key new with
  | none => d.raw
  | some row => d.raw.insert key row

theorem Database.rawAfter_self (d : Database) (key : CandleKey) (new : StoredCandle) :
    ((d.rawAfter key new).lookup key).map StoredCandle.entry =
      some (Entry.offer (d.entry key) new.entry) := by
  unfold Database.rawAfter Database.accepted Database.entry
  cases hold : d.raw.lookup key with
  | none => simp [insertedRow, Entry.offer]
  | some old =>
    have hentry := conflictUpdate_entry old new
    cases hrow : conflictUpdate old new with
    | none =>
      rw [hrow] at hentry
      simpa [hold, hrow] using hentry
    | some row =>
      rw [hrow] at hentry
      simpa [hrow] using hentry

theorem Database.rawAfter_other (d : Database) {key other : CandleKey} (h : other ≠ key)
    (new : StoredCandle) : (d.rawAfter key new).lookup other = d.raw.lookup other := by
  unfold Database.rawAfter
  cases d.accepted key new with
  | none => rfl
  | some row => exact AList.lookup_insert_ne h

/-! ### The statement -/

section
variable (ans : ℕ → (q : Question) → Answer q)

theorem appendRevision_run (key : CandleKey) (row : StoredCandle)
    (s : Alone Database Write Lock) :
    ∃ s', run ans (appendRevision key row) s = some (.ok (), s') ∧ s'.view.raw = s.view.raw ∧
      s'.db = s.db := by
  unfold appendRevision
  rw [run_ok (run_view s)]
  by_cases h : (s.view.revisions.lookup (key, row.dataRevision)).isNone = true
  · refine ⟨s.push (.putRevision key row), by rw [if_pos h]; rfl, ?_, rfl⟩
    rw [Alone.push_view]
    rfl
  · exact ⟨s, by rw [if_neg h]; rfl, rfl, rfl⟩

theorem appendRevisions_run (rows : List (CandleKey × StoredCandle))
    (s : Alone Database Write Lock) :
    ∃ s', run ans (forEach (fun r => appendRevision r.1 r.2) rows) s = some (.ok (), s') ∧
      s'.view.raw = s.view.raw := by
  induction rows generalizing s with
  | nil => exact ⟨s, rfl, rfl⟩
  | cons r rows ih =>
    obtain ⟨s₁, hrun, hraw, -⟩ := appendRevision_run ans r.1 r.2 s
    obtain ⟨s₂, hrun', hraw'⟩ := ih s₁
    refine ⟨s₂, ?_, hraw'.trans hraw⟩
    change run ans (appendRevision r.1 r.2 >>= fun _ => forEach _ rows) s = _
    rw [run_ok hrun, hrun']

/-- A candle that the constraints let through is offered to its key. -/
theorem upsertRawCandle_run (writer : Writer) {c : Candle} {new : StoredCandle}
    (hnew : c.excluded = some new) (s : Alone Database Write Lock) :
    ∃ r s', run ans (upsertRawCandle writer c) s = some (.ok r, s') ∧
      s'.view.raw = s.view.rawAfter c.key new ∧ s'.db = s.db := by
  unfold upsertRawCandle Database.rawAfter
  simp only [hnew]
  rw [run_ok (run_acquire _ s), run_ok (run_view _), Alone.hold_view]
  change ∃ r s', run ans (match s.view.accepted c.key new with
    | none => pure none
    | some row => _) _ = _ ∧ _
  cases hacc : s.view.accepted c.key new with
  | none => exact ⟨none, s.hold _, rfl, rfl, rfl⟩
  | some row =>
    simp only [Database.enforce_accepted hacc, Bool.false_eq_true, if_false]
    rw [run_ok (run_emit _ _)]
    obtain ⟨s', hrun, hraw, hdb⟩ :=
      appendRevision_run ans c.key row ((s.hold _).push (.putRaw writer c.key row))
    refine ⟨some (c.key, row), s', by rw [run_ok hrun]; rfl, ?_, hdb⟩
    rw [hraw, Alone.push_view]
    rfl

/-- When the statement succeeds, the constraints let every candle through and each key got its
offers in order. -/
theorem collectUpserts_run (writer : Writer) (cs : List Candle) (s : Alone Database Write Lock) :
    (∃ e s', run ans (collect (upsertRawCandle writer) cs) s = some (.error e, s') ∧
      s'.db = s.db) ∨
    ∃ rows s', run ans (collect (upsertRawCandle writer) cs) s = some (.ok rows, s') ∧
      (∀ c ∈ cs, c.excluded.isSome) ∧
      ∀ key, s'.view.entry key = Entry.offers (s.view.entry key) (offersTo key cs) := by
  induction cs generalizing s with
  | nil => exact Or.inr ⟨[], s, rfl, by simp, fun _ => rfl⟩
  | cons c cs ih =>
    cases hnew : c.excluded with
    | none =>
      refine Or.inl ⟨.database "IntegrityError", s, ?_, rfl⟩
      change run ans (upsertRawCandle writer c >>= _) s = _
      rw [run_bind]
      simp [upsertRawCandle, hnew]
    | some new =>
      obtain ⟨r, s₁, hrun, hraw, hdb⟩ := upsertRawCandle_run ans writer hnew s
      have hfirst : ∀ key, s₁.view.entry key =
          Entry.offers (s.view.entry key) (offersTo key [c]) := by
        intro key
        unfold Database.entry
        rw [hraw]
        by_cases hk : c.key = key
        · subst hk
          rw [Database.rawAfter_self]
          simp [offersTo, hnew, Database.entry]
        · rw [Database.rawAfter_other _ (Ne.symm hk)]
          simp [offersTo, hk]
      have happend : ∀ key, offersTo key (c :: cs) = offersTo key [c] ++ offersTo key cs :=
        fun key => List.filterMap_append (l := [c])
      change (∃ e s', run ans (upsertRawCandle writer c >>= _) s = _ ∧ _) ∨
        ∃ rows s', run ans (upsertRawCandle writer c >>= _) s = _ ∧ _
      rw [run_ok hrun]
      rcases ih s₁ with ⟨e, s', herr, hdb'⟩ | ⟨rows, s', hok, hsome, hentry⟩
      · exact Or.inl ⟨e, s', by rw [run_bind, herr], hdb'.trans hdb⟩
      · refine Or.inr ⟨r.toList ++ rows, s', by rw [run_ok hok]; rfl, ?_, fun key => ?_⟩
        · simpa [hnew] using hsome
        rw [hentry, hfirst, happend]
        simp [Entry.offers, List.foldl_append]

end

/-- A transaction that raises changes no row, one that commits offers its candles. -/
theorem upsert_entry (d : Database) (writer : Writer) (cs : List Candle) (key : CandleKey) :
    ∃ r d', commitUpsert d writer cs = some (r, d') ∧
      match r with
      | .ok _ => (∀ c ∈ cs, c.excluded.isSome) ∧
          d'.entry key = Entry.offers (d.entry key) (offersTo key cs)
      | .error _ => d'.entry key = d.entry key := by
  unfold commitUpsert
  rw [run_transaction]
  rcases collectUpserts_run quiet writer cs { db := d } with
    ⟨e, s, herr, hdb⟩ | ⟨rows, s, hok, hsome, hentry⟩
  · have hrun : run quiet (upsertRawCandles writer cs) { db := d } = some (.error e, s) := by
      unfold upsertRawCandles
      rw [run_bind, herr]
    rw [hrun]
    refine ⟨.error e, _, rfl, ?_⟩
    change s.db.entry key = d.entry key
    rw [hdb]
  · obtain ⟨s', hrun, hraw⟩ := appendRevisions_run quiet rows s
    have hall : run quiet (upsertRawCandles writer cs) { db := d } = some (.ok rows, s') := by
      unfold upsertRawCandles
      rw [run_ok hok, run_ok hrun]
      rfl
    rw [hall]
    refine ⟨.ok rows, _, rfl, hsome, ?_⟩
    change s'.view.entry key = _
    unfold Database.entry
    rw [hraw]
    exact hentry key

theorem upserts_entry (d : Database) (ts : List (Writer × List Candle)) (key : CandleKey) :
    ∃ news, (commitUpserts d ts).entry key = Entry.offers (d.entry key) news := by
  induction ts generalizing d with
  | nil => exact ⟨[], rfl⟩
  | cons t ts ih =>
    obtain ⟨writer, cs⟩ := t
    obtain ⟨r, d', hd', hentry⟩ := upsert_entry d writer cs key
    obtain ⟨news, hnews⟩ := ih d'
    have hcons : commitUpserts d ((writer, cs) :: ts) = commitUpserts d' ts := by
      simp only [commitUpserts, hd']
    rw [hcons, hnews]
    cases r with
    | ok rows =>
      exact ⟨offersTo key cs ++ news, by rw [hentry.2]; simp [Entry.offers, List.foldl_append]⟩
    | error e => exact ⟨news, by rw [hentry]⟩

theorem commitUpserts_append (d : Database) (ts ts' : List (Writer × List Candle)) :
    commitUpserts d (ts ++ ts') = commitUpserts (commitUpserts d ts) ts' := by
  induction ts generalizing d with
  | nil => rfl
  | cons t ts ih =>
    obtain ⟨writer, cs⟩ := t
    obtain ⟨r, d', hd', -⟩ := upsert_entry d writer cs ⟨0, 0, by decide⟩
    simp only [List.cons_append, commitUpserts, hd', ih]

/-- The stored open, high, low, close and volume of a key. -/
def Database.ohlcv (d : Database) (key : CandleKey) : Option Ohlcv :=
  (d.raw.lookup key).map (·.values)

theorem Database.ohlcv_of_entry {d d' : Database} {key : CandleKey}
    (h : d.entry key = d'.entry key) : d.ohlcv key = d'.ohlcv key := by
  have hvalue : ∀ d : Database, d.ohlcv key = (d.entry key).map Entry.value := by
    intro d
    simp [Database.ohlcv, Database.entry, StoredCandle.entry, Function.comp_def]
  rw [hvalue, hvalue, h]

/-- The candles of one statement have different keys, so a key gets one offer. -/
theorem offersTo_of_nodup {cs : List Candle} {c : Candle} {new : StoredCandle}
    (hkeys : (cs.map Candle.key).Nodup) (hc : c ∈ cs) (hnew : c.excluded = some new) :
    offersTo c.key cs = [new.entry] := by
  induction cs with
  | nil => cases hc
  | cons x xs ih =>
    obtain ⟨hx, hxs⟩ := List.nodup_cons.mp hkeys
    rcases List.mem_cons.mp hc with rfl | hm
    · have hrest : offersTo c.key xs = [] := by
        refine List.filterMap_eq_nil_iff.mpr fun y hy => if_neg fun he => hx ?_
        exact he ▸ List.mem_map_of_mem hy
      have hfirst : offersTo c.key (c :: xs) = new.entry :: offersTo c.key xs := by
        simp [offersTo, hnew]
      rw [hfirst, hrest]
    · have hne : x.key ≠ c.key := fun he => hx (he ▸ List.mem_map_of_mem hm)
      have hskip : offersTo c.key (x :: xs) = offersTo c.key xs := by
        simp [offersTo, hne]
      rw [hskip]
      exact ih hxs hm

theorem offersTo_priority {cs : List Candle} {key : CandleKey} {n : ℕ}
    (h : ∀ c ∈ cs, c.key = key → sourcePriority c.source < n) :
    ∀ low ∈ offersTo key cs, low.priority < n := by
  intro low hlow
  obtain ⟨c, hc, he⟩ := List.mem_filterMap.mp hlow
  by_cases hk : c.key = key
  · rw [if_pos hk] at he
    obtain ⟨new, hnew, rfl⟩ := Option.map_eq_some_iff.mp he
    simpa [StoredCandle.entry, (Candle.excluded_eq hnew).1] using h c hc hk
  · rw [if_neg hk] at he
    cases he

/-- Once a REST candle was committed that did not repeat a row of a lower source, no upsert of a
lower source changes the values of its key. -/
theorem rest_candle_final {d d₁ : Database} {writer : Writer} {cs : List Candle}
    {rows : List (CandleKey × StoredCandle)} {c : Candle}
    (hcommit : commitUpsert d writer cs = some (.ok rows, d₁)) (hc : c ∈ cs)
    (hkeys : (cs.map Candle.key).Nodup) (hsource : c.source = "binance_rest")
    (hrepeat : ∀ old, d.raw.lookup c.key = some old → c.values = some old.values →
      old.source = "binance_rest")
    (later : List (Writer × List Candle)) (lowWriter : Writer) (lows : List Candle)
    (hlow : ∀ low ∈ lows, low.key = c.key →
      sourcePriority low.source < sourcePriority "binance_rest") :
    (commitUpserts d₁ (later ++ [(lowWriter, lows)])).ohlcv c.key =
      (commitUpserts d₁ later).ohlcv c.key := by
  obtain ⟨r, d', hd', hentry⟩ := upsert_entry d writer cs c.key
  rw [hcommit] at hd'
  cases hd'
  obtain ⟨new, hnew⟩ := Option.isSome_iff_exists.mp (hentry.1 c hc)
  obtain ⟨hnewSource, hnewValues⟩ := Candle.excluded_eq hnew
  have hpriority : new.entry.priority = sourcePriority "binance_rest" := by
    rw [← hsource, ← hnewSource]
    rfl
  have hfound : ∀ old, d.entry c.key = some old → old.value = new.entry.value →
      new.entry.priority ≤ old.priority := by
    intro old hold hvalue
    obtain ⟨row, hrow, rfl⟩ := Option.map_eq_some_iff.mp hold
    rw [hpriority, ← hrepeat row hrow (hnewValues.trans (congrArg some hvalue.symm))]
    exact le_refl _
  have hafter : d₁.entry c.key = some (Entry.offer (d.entry c.key) new.entry) := by
    rw [hentry.2, offersTo_of_nodup hkeys hc hnew]
    rfl
  obtain ⟨news, hnews⟩ := upserts_entry d₁ later c.key
  obtain ⟨r, d', hd', hlast⟩ := upsert_entry (commitUpserts d₁ later) lowWriter lows c.key
  have happend : commitUpserts d₁ (later ++ [(lowWriter, lows)]) = d' := by
    rw [commitUpserts_append]
    simp only [commitUpserts, hd']
  rw [happend]
  refine Database.ohlcv_of_entry ?_
  cases r with
  | error e => exact hlast
  | ok _ =>
    rw [hlast.2, hnews, hafter]
    exact Entry.offers_final hfound news (hpriority ▸ offersTo_priority hlow)

/-- A candle at minute 0 of asset 1 with one price. -/
def flatCandle (source : String) (price : ℚ) : Candle :=
  { key := ⟨1, 0, by decide⟩, values := some ⟨price, price, price, price, 1⟩, source := source
    sourceEventTime := none, sourceReceivedAt := none }

/-- The rows after a WebSocket candle with price 1. -/
def afterWebSocket : Database := commitUpserts {} [(.direct, [flatCandle "binance_ws" 1])]

/-- What a REST candle leaves behind, and what a later WebSocket candle with price 3 makes of
it. -/
def replayed (price : ℚ) : Option (Bool × Option Ohlcv × Option Ohlcv) :=
  (commitUpsert afterWebSocket .direct [flatCandle "binance_rest" price]).map fun r =>
    (r.1.isOk, r.2.ohlcv ⟨1, 0, by decide⟩,
      (commitUpserts r.2 [(.direct, [flatCandle "binance_ws" 3])]).ohlcv ⟨1, 0, by decide⟩)

/-- A REST candle that corrects the WebSocket candle survives a delayed replay. -/
theorem rest_correction_kept : ∃ rows d₁,
    commitUpsert afterWebSocket .direct [flatCandle "binance_rest" 2] = some (.ok rows, d₁) ∧
    (commitUpserts d₁ ([] ++ [(.direct, [flatCandle "binance_ws" 3])])).ohlcv ⟨1, 0, by decide⟩ =
      (commitUpserts d₁ []).ohlcv ⟨1, 0, by decide⟩ := by
  have hok : (replayed 2).map Prod.fst = some true := by decide +kernel
  unfold replayed at hok
  cases hcommit : commitUpsert afterWebSocket .direct [flatCandle "binance_rest" 2] with
  | none => simp [hcommit] at hok
  | some r =>
    obtain ⟨r, d₁⟩ := r
    cases r with
    | error e => simp [hcommit, Except.isOk, Except.toBool] at hok
    | ok rows =>
      refine ⟨rows, d₁, rfl, rest_candle_final (c := flatCandle "binance_rest" 2) hcommit
        (by simp) (by simp) rfl ?_ [] .direct [flatCandle "binance_ws" 3] (by simp [flatCandle]; decide)⟩
      have hstored : afterWebSocket.ohlcv ⟨1, 0, by decide⟩ = some ⟨1, 1, 1, 1, 1⟩ := by
        decide +kernel
      intro old hold hvalues
      have hone : old.values = ⟨1, 1, 1, 1, 1⟩ := by
        rw [Database.ohlcv, show afterWebSocket.raw.lookup ⟨1, 0, by decide⟩ = some old from hold]
          at hstored
        exact Option.some.inj hstored
      rw [hone] at hvalues
      exact absurd hvalues (by decide +kernel)

/-- A REST candle that repeats the WebSocket candle does not. -/
theorem repeated_candle_overwritten :
    replayed 1 = some (true, some ⟨1, 1, 1, 1, 1⟩, some ⟨3, 3, 3, 3, 1⟩) := by
  decide +kernel

end Quantive.Candles
