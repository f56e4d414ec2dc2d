import Quantive.Candles.Coverage
import Quantive.Candles.Finality

/-!
# The ledger of revisions

The revisions of a key are a list that only grows: a row of `candle_revisions` is its list's
entry of that number, and the raw row of the key, when there is one, is the last entry. A
deletion leaves the list alone, so a row that is ingested again continues it.
-/

namespace Quantive.Candles
open Quantive.ReadCommitted Prog

/-! ### The ledger of a key -/

/-- The revisions of a key are `history`, numbered from one. -/
structure Database.Records (d : Database) (key : CandleKey) (history : List StoredCandle) : Prop where
  unnumbered : d.revisions.lookup (key, 0) = none
  row : ∀ m, d.revisions.lookup (key, m + 1) = history[m]?
  numbered : ∀ m row, history[m]? = some row → row.dataRevision = m + 1

/-- The raw row of the key, when there is one, is the last revision. -/
structure Database.Ledger (d : Database) (key : CandleKey) (history : List StoredCandle) : Prop
    extends d.Records key history where
  current : ∀ row, d.raw.lookup key = some row → history.getLast? = some row

def Database.Ledgered (d : Database) : Prop := ∀ key, ∃ history, d.Ledger key history

/-- Migration 014 makes the first revision of every raw row. -/
structure Database.Seeded (d : Database) : Prop where
  first : ∀ key row, d.raw.lookup key = some row → row.dataRevision = 1
  copied : ∀ key m, d.revisions.lookup (key, m) = if m = 1 then d.raw.lookup key else none

/-- Both databases have the same raw row and revisions of a key. -/
def SameCandle (key : CandleKey) (d d' : Database) : Prop :=
  d'.raw.lookup key = d.raw.lookup key ∧
    ∀ m, d'.revisions.lookup (key, m) = d.revisions.lookup (key, m)

section
variable {d d' : Database} {key : CandleKey} {history more : List StoredCandle} {row : StoredCandle}

theorem Database.Seeded.ledgered (h : d.Seeded) : d.Ledgered := by
  intro key
  have hcopied := h.copied key
  refine ⟨(d.raw.lookup key).toList, ⟨?_, fun m => ?_, fun m row hm => ?_⟩, fun row hrow => ?_⟩
  · rw [hcopied, if_neg (by omega)]
  · rw [hcopied]
    cases hraw : d.raw.lookup key <;> cases m <;> simp
  · cases hraw : d.raw.lookup key with
    | none => simp [hraw] at hm
    | some old =>
      rw [hraw, Option.toList_some, List.getElem?_singleton] at hm
      by_cases hzero : m = 0
      · rw [if_pos hzero, Option.some.injEq] at hm
        have hfirst := h.first key old hraw
        rw [← hm]
        omega
      · rw [if_neg hzero] at hm
        cases hm
  · rw [hrow]
    rfl

theorem Database.Records.isSome_iff (h : d.Records key history) (m : ℕ) :
    (d.revisions.lookup (key, m)).isSome ↔ 1 ≤ m ∧ m ≤ history.length := by
  cases m with
  | zero =>
    rw [h.unnumbered]
    simp
  | succ m =>
    rw [h.row, isSome_getElem?]
    omega

theorem Database.Records.kept (h : d.Records key history) (h' : d'.Records key (history ++ more))
    {m : ℕ} (hrow : d.revisions.lookup (key, m) = some row) :
    d'.revisions.lookup (key, m) = some row := by
  cases m with
  | zero =>
    rw [h.unnumbered] at hrow
    cases hrow
  | succ m =>
    rw [h.row] at hrow
    have hlt : m < history.length := (List.getElem?_eq_some_iff.mp hrow).1
    rw [h'.row, List.getElem?_append_left hlt, hrow]

/-- The highest revision is the length of the ledger. -/
theorem Database.Records.priorRevision (h : d.Records key history) :
    (d.priorRevision key).getD 0 = history.length := by
  have hmem : ∀ m, m ∈ (d.revisions.keys.filter (·.1 = key)).map (·.2) ↔
      1 ≤ m ∧ m ≤ history.length := by
    intro m
    rw [← h.isSome_iff m, AList.lookup_isSome, AList.mem_keys, List.mem_map]
    constructor
    · rintro ⟨⟨k, n⟩, hk, rfl⟩
      obtain ⟨hkeys, hkey⟩ := List.mem_filter.mp hk
      obtain rfl : k = key := by simpa using hkey
      exact hkeys
    · intro hkeys
      exact ⟨(key, m), List.mem_filter.mpr ⟨hkeys, by simp⟩, rfl⟩
  unfold Database.priorRevision
  cases hmax : ((d.revisions.keys.filter (·.1 = key)).map (·.2)).max? with
  | none =>
    have hnil := List.max?_eq_none_iff.mp hmax
    have hone := hmem 1
    rw [hnil] at hone
    simp only [List.not_mem_nil, false_iff] at hone
    rw [Option.getD_none]
    omega
  | some n =>
    obtain ⟨hn, hle⟩ := List.max?_eq_some_iff.mp hmax
    have hlength := (hmem n).mp hn
    have htop := hle history.length ((hmem history.length).mpr ⟨by omega, le_refl _⟩)
    rw [Option.getD_some]
    omega

/-- The row that an upsert writes has the next number. -/
theorem Database.Ledger.accepted (h : d.Ledger key history) {new : StoredCandle}
    (hrow : d.accepted key new = some row) : row.dataRevision = history.length + 1 := by
  unfold Database.accepted at hrow
  cases hraw : d.raw.lookup key with
  | none =>
    rw [hraw, Option.some.injEq] at hrow
    rw [← hrow, insertedRow, h.priorRevision]
    rfl
  | some old =>
    simp only [hraw] at hrow
    unfold conflictUpdate at hrow
    split at hrow
    · rw [Option.some.injEq] at hrow
      have hlast := h.current old hraw
      rw [List.getLast?_eq_getElem?] at hlast
      have hlt := (List.getElem?_eq_some_iff.mp hlast).1
      have hold := h.numbered _ _ hlast
      rw [← hrow]
      change old.dataRevision + 1 = _
      omega
    · cases hrow

theorem SameCandle.refl (key : CandleKey) (d : Database) : SameCandle key d d := ⟨rfl, fun _ => rfl⟩

theorem SameCandle.trans {d'' : Database} (h : SameCandle key d d') (h' : SameCandle key d' d'') :
    SameCandle key d d'' :=
  ⟨h'.1.trans h.1, fun m => (h'.2 m).trans (h.2 m)⟩

theorem SameCandle.symm (h : SameCandle key d d') : SameCandle key d' d :=
  ⟨h.1.symm, fun m => (h.2 m).symm⟩

theorem SameCandle.records (h : SameCandle key d d') (hrecords : d.Records key history) :
    d'.Records key history where
  unnumbered := (h.2 0).trans hrecords.unnumbered
  row m := (h.2 _).trans (hrecords.row m)
  numbered := hrecords.numbered

theorem SameCandle.ledger (h : SameCandle key d d') (hledger : d.Ledger key history) :
    d'.Ledger key history where
  toRecords := h.records hledger.toRecords
  current row hrow := hledger.current row (h.1.symm.trans hrow)

theorem SameCandle.accepted (h : SameCandle key d d') (new : StoredCandle)
    (hledger : d.Ledger key history) : d'.accepted key new = d.accepted key new := by
  have hprior := (h.ledger hledger).priorRevision
  unfold Database.accepted insertedRow
  rw [h.1, hprior, hledger.priorRevision]

end

/-! ### Writes -/

theorem apply_revisions (w : Write) (d : Database) : (Store.apply w d).revisions = match w with
    | .putRevision key row => d.revisions.insert (key, row.dataRevision) row
    | _ => d.revisions := by
  cases w <;> rfl

def Touches (key : CandleKey) : Write → Prop
  | .putRaw _ other _ => other = key
  | .deleteRaw other => other = key
  | .putRevision other _ => other = key
  | _ => False

/-- The writes to neither raw rows nor revisions. -/
def LeavesLedger : Write → Prop
  | .putRaw _ _ _ => False
  | .deleteRaw _ => False
  | .putRevision _ _ => False
  | _ => True

theorem LeavesLedger.not_touches {w : Write} (h : LeavesLedger w) (key : CandleKey) :
    ¬ Touches key w := by
  intro ht
  cases w <;> first | exact h | exact ht

theorem StagedWrite.leavesLedger {w : Write} (h : StagedWrite w) : LeavesLedger w := by
  cases w <;> first | exact h | trivial

theorem RangeWrite.leavesLedger {w : Write} (h : RangeWrite w) : LeavesLedger w := by
  cases w <;> first | exact h | trivial

/-- A write of another key. -/
theorem sameCandle_apply {w : Write} {key : CandleKey} (h : ¬ Touches key w) (d : Database) :
    SameCandle key d (Store.apply w d) := by
  refine ⟨?_, fun m => ?_⟩
  · rw [apply_raw]
    cases w with
    | putRaw writer other row => exact AList.lookup_insert_ne fun hk => h hk.symm
    | deleteRaw other => exact AList.lookup_erase_ne fun hk => h hk.symm
    | _ => rfl
  · rw [apply_revisions]
    cases w with
    | putRevision other row =>
      exact AList.lookup_insert_ne fun hk => h (congrArg Prod.fst hk).symm
    | _ => rfl

/-- The same write to both. -/
theorem SameCandle.apply {key : CandleKey} {d d' : Database} (h : SameCandle key d d') (w : Write) :
    SameCandle key (Store.apply w d) (Store.apply w d') := by
  refine ⟨?_, fun m => ?_⟩
  · rw [apply_raw, apply_raw]
    cases w with
    | putRaw writer other row =>
      by_cases hk : key = other
      · rw [hk, AList.lookup_insert, AList.lookup_insert]
      · rw [AList.lookup_insert_ne hk, AList.lookup_insert_ne hk, h.1]
    | deleteRaw other =>
      by_cases hk : key = other
      · rw [hk, AList.lookup_erase, AList.lookup_erase]
      · rw [AList.lookup_erase_ne hk, AList.lookup_erase_ne hk, h.1]
    | _ => exact h.1
  · rw [apply_revisions, apply_revisions]
    cases w with
    | putRevision other row =>
      by_cases hk : (key, m) = (other, row.dataRevision)
      · rw [hk, AList.lookup_insert, AList.lookup_insert]
      · rw [AList.lookup_insert_ne hk, AList.lookup_insert_ne hk, h.2 m]
    | _ => exact h.2 m

/-- What a session sees of a key depends on the key's rows alone. -/
theorem SameCandle.view {key : CandleKey} {d d' : Database} (h : SameCandle key d d')
    (c : Ctx Write Lock) : SameCandle key (c.view d) (c.view d') := by
  obtain ⟨held, owned, log⟩ := c
  simp only [Ctx.view]
  induction log generalizing d d' with
  | nil => exact h
  | cons w log ih => exact ih (h.apply w)

theorem sameCandle_view {key : CandleKey} {c : Ctx Write Lock} (h : ∀ w ∈ c.log, ¬ Touches key w)
    (d : Database) : SameCandle key d (c.view d) := by
  obtain ⟨held, owned, log⟩ := c
  simp only [Ctx.view]
  induction log generalizing d with
  | nil => exact .refl key d
  | cons w log ih =>
    have hfirst := sameCandle_apply (h w List.mem_cons_self) d
    exact hfirst.trans (ih _ fun v hv => h v (List.mem_cons_of_mem _ hv))

/-- An accepted row is appended with its number. -/
theorem Database.Ledger.append {d : Database} {key : CandleKey} {history : List StoredCandle}
    (h : d.Ledger key history) {new row : StoredCandle} (hrow : d.accepted key new = some row)
    (writer : Writer) :
    (Store.apply (Write.putRevision key row) (Store.apply (Write.putRaw writer key row) d)).Ledger
      key (history ++ [row]) := by
  have hnumber := h.accepted hrow
  constructor
  · constructor
    · rw [apply_revisions, apply_revisions, AList.lookup_insert_ne, h.unnumbered]
      intro hk
      have hzero : 0 = row.dataRevision := congrArg Prod.snd hk
      omega
    · intro m
      rw [apply_revisions, apply_revisions]
      by_cases hm : m = history.length
      · rw [hm, ← hnumber, AList.lookup_insert, List.getElem?_concat_length]
      · rw [AList.lookup_insert_ne, h.row, List.getElem?_append]
        · by_cases hlt : m < history.length
          · rw [if_pos hlt]
          · rw [if_neg hlt, List.getElem?_eq_none (by omega),
              List.getElem?_eq_none (by rw [List.length_singleton]; omega)]
        · intro hk
          have hnext : m + 1 = row.dataRevision := congrArg Prod.snd hk
          omega
    · intro m r hr
      by_cases hlt : m < history.length
      · rw [List.getElem?_append_left hlt] at hr
        exact h.numbered m r hr
      · rw [List.getElem?_append_right (by omega), List.getElem?_singleton] at hr
        split at hr
        · rw [Option.some.injEq] at hr
          rw [← hr, hnumber]
          omega
        · cases hr
  · intro r hr
    rw [apply_raw] at hr
    simp only [apply_raw, AList.lookup_insert, Option.some.injEq] at hr
    rw [List.getLast?_concat, hr]

/-- A deletion leaves the revisions. -/
theorem Database.Ledger.delete {d : Database} {key : CandleKey} {history : List StoredCandle}
    (h : d.Ledger key history) : (Store.apply (Write.deleteRaw key) d).Ledger key history where
  unnumbered := h.unnumbered
  row := h.row
  numbered := h.numbered
  current row hrow := by
    rw [apply_raw, AList.lookup_erase] at hrow
    cases hrow

/-! ### The protocol -/

/-- The raw row and the revisions of a locked row are left alone, and no commit changes a
revision. -/
def ledgerProtocol (ι : Type) : Protocol ι Database Lock where
  Inv := Database.Ledgered
  Rely _ held _ d d' := ∀ key, .rawCandle key ∈ held → SameCandle key d d'
  Commit _ _ _ d d' := ∀ key m row, d.revisions.lookup (key, m) = some row →
    d'.revisions.lookup (key, m) = some row
  rely_refl _ _ _ d key _ := .refl key d
  rely_trans _ _ _ _ _ _ h h' key hk := (h key hk).trans (h' key hk)
  commit_refl _ _ _ _ _ _ _ h := h

/-- A session that extends ledgers: it holds the keys it touched, what it sees of each ledger is an
extension, and the revisions of `rows` are in it. -/
structure Revising (rows : List (CandleKey × StoredCandle)) (c : Ctx Write Lock) (d : Database) :
    Prop where
  touched : ∀ w ∈ c.log, ∀ key, Touches key w → .rawCandle key ∈ c.held
  ledger : ∀ key, ∃ history more, d.Ledger key history ∧ (c.view d).Ledger key (history ++ more)
  appended : ∀ r ∈ rows, .rawCandle r.1 ∈ c.held ∧
    ((c.view d).revisions.lookup (r.1, r.2.dataRevision)).isSome

section
variable {ι : Type} {i : ι} {rows : List (CandleKey × StoredCandle)} {c : Ctx Write Lock}
  {d d' : Database} {key : CandleKey} {new row : StoredCandle}

theorem Revising.start (h : d.Ledgered) (held : List Lock) (owned : List ℕ) :
    Revising [] ⟨held, owned, []⟩ d := by
  refine ⟨fun w hw => absurd hw List.not_mem_nil, fun key => ?_, fun r hr => absurd hr List.not_mem_nil⟩
  obtain ⟨history, hhistory⟩ := h key
  refine ⟨history, [], hhistory, ?_⟩
  rwa [List.append_nil]

theorem Revising.rows_nil (h : Revising rows c d) : Revising [] c d :=
  ⟨h.touched, h.ledger, fun _ hr => absurd hr List.not_mem_nil⟩

/-- What the session did not lock it sees as it is. -/
theorem Revising.untouched (h : Revising rows c d) (hk : .rawCandle key ∉ c.held) (d' : Database) :
    SameCandle key d' (c.view d') :=
  sameCandle_view (fun w hw ht => hk (h.touched w hw key ht)) d'

theorem Revising.stable (h : Revising rows c d) (he : (ledgerProtocol ι).Env i c d d') :
    Revising rows c d' := by
  refine ⟨h.touched, fun key => ?_, fun r hr => ?_⟩
  · by_cases hk : .rawCandle key ∈ c.held
    · have hsame := he.1 key hk
      obtain ⟨history, more, hold, hview⟩ := h.ledger key
      exact ⟨history, more, hsame.ledger hold, (hsame.view c).ledger hview⟩
    · obtain ⟨history, hhistory⟩ := he.2 key
      have hview := (h.untouched hk d').ledger hhistory
      refine ⟨history, [], hhistory, ?_⟩
      rwa [List.append_nil]
  · obtain ⟨hlock, hrow⟩ := h.appended r hr
    have hsame := (he.1 r.1 hlock).view c
    refine ⟨hlock, ?_⟩
    rwa [hsame.2]

theorem Revising.hold (h : Revising rows c d) (l : Lock) : Revising rows (c.hold l) d :=
  ⟨fun w hw key ht => List.mem_cons_of_mem _ (h.touched w hw key ht), h.ledger,
    fun r hr => ⟨List.mem_cons_of_mem _ (h.appended r hr).1, (h.appended r hr).2⟩⟩

/-- A write to neither a raw row nor a revision. -/
theorem Revising.push (h : Revising rows c d) {w : Write} (hw : LeavesLedger w) :
    Revising rows (c.push w) d := by
  refine ⟨fun v hv key ht => ?_, fun key => ?_, fun r hr => ?_⟩
  · rcases List.mem_append.mp hv with hv | hv
    · exact h.touched v hv key ht
    · rw [List.mem_singleton.mp hv] at ht
      exact absurd ht (hw.not_touches key)
  · obtain ⟨history, more, hold, hview⟩ := h.ledger key
    refine ⟨history, more, hold, ?_⟩
    rw [Ctx.view_push]
    exact (sameCandle_apply (hw.not_touches key) _).ledger hview
  · obtain ⟨hlock, hrow⟩ := h.appended r hr
    refine ⟨hlock, ?_⟩
    rw [Ctx.view_push, (sameCandle_apply (hw.not_touches r.1) _).2]
    exact hrow

theorem Revising.push_deleteRaw (h : Revising [] c d) (hlock : .rawCandle key ∈ c.held) :
    Revising [] (c.push (.deleteRaw key)) d := by
  refine ⟨fun w hw other ht => ?_, fun other => ?_, fun r hr => absurd hr List.not_mem_nil⟩
  · rcases List.mem_append.mp hw with hw | hw
    · exact h.touched w hw other ht
    · rw [List.mem_singleton.mp hw] at ht
      exact (show key = other from ht) ▸ hlock
  · obtain ⟨history, more, hold, hview⟩ := h.ledger other
    refine ⟨history, more, hold, ?_⟩
    rw [Ctx.view_push]
    by_cases hk : key = other
    · rw [← hk] at hview ⊢
      exact hview.delete
    · exact (sameCandle_apply (w := .deleteRaw key) hk _).ledger hview

/-- The row of an upsert and its revision. -/
theorem Revising.push_accepted (h : Revising rows c d) (hlock : .rawCandle key ∈ c.held)
    (hrow : (c.view d).accepted key new = some row) (writer : Writer) :
    Revising (rows ++ [(key, row)]) ((c.push (.putRaw writer key row)).push (.putRevision key row))
      d := by
  have hview : (((c.push (.putRaw writer key row)).push (.putRevision key row)).view d) =
      Store.apply (Write.putRevision key row) (Store.apply (Write.putRaw writer key row) (c.view d)) := by
    rw [Ctx.view_push, Ctx.view_push]
  have hother : ∀ other, key ≠ other → SameCandle other (c.view d)
      (Store.apply (Write.putRevision key row) (Store.apply (Write.putRaw writer key row) (c.view d))) :=
    fun other hk => (sameCandle_apply (w := .putRaw writer key row) hk _).trans
      (sameCandle_apply (w := .putRevision key row) hk _)
  refine ⟨fun w hw other ht => ?_, fun other => ?_, fun r hr => ?_⟩
  · rcases List.mem_append.mp hw with hw | hw
    · rcases List.mem_append.mp hw with hw | hw
      · exact h.touched w hw other ht
      · rw [List.mem_singleton.mp hw] at ht
        exact (show key = other from ht) ▸ hlock
    · rw [List.mem_singleton.mp hw] at ht
      exact (show key = other from ht) ▸ hlock
  · obtain ⟨history, more, hold, hledger⟩ := h.ledger other
    rw [hview]
    by_cases hk : key = other
    · subst hk
      refine ⟨history, more ++ [row], hold, ?_⟩
      rw [← List.append_assoc]
      exact hledger.append hrow writer
    · exact ⟨history, more, hold, (hother other hk).ledger hledger⟩
  · rw [hview]
    rcases List.mem_append.mp hr with hr | hr
    · obtain ⟨hheld, hsome⟩ := h.appended r hr
      refine ⟨hheld, ?_⟩
      rw [apply_revisions, apply_revisions]
      by_cases hk : (r.1, r.2.dataRevision) = (key, row.dataRevision)
      · rw [hk, AList.lookup_insert]
        rfl
      · rw [AList.lookup_insert_ne hk]
        exact hsome
    · rw [List.mem_singleton.mp hr]
      refine ⟨hlock, ?_⟩
      rw [apply_revisions, AList.lookup_insert]
      rfl

/-- A session may commit between its statements. -/
theorem Revising.guar (h : Revising rows c d) : (ledgerProtocol ι).Guar i c d (c.view d) where
  inv key := by
    obtain ⟨history, more, -, hview⟩ := h.ledger key
    exact ⟨_, hview⟩
  rely j _ held _ hheld _ key hk := h.untouched (hheld _ hk) d
  unused _ _ _ := trivial
  commit key m row hrow := by
    obtain ⟨history, more, hold, hview⟩ := h.ledger key
    exact hold.toRecords.kept hview.toRecords hrow

theorem Revising.release (h : Revising rows c d) : Revising [] c.release (c.view d) :=
  Revising.start (fun key => (h.ledger key).elim fun _ h => ⟨_, h.choose_spec.2⟩) _ _

theorem revising_sessionInv (i : ι) : (ledgerProtocol ι).SessionInv i (Revising []) where
  stable _ _ _ h he := h.stable he
  hold _ _ l h := h.hold l
  own _ _ _ h _ _ := ⟨h.touched, h.ledger, h.appended⟩
  commit _ _ h := ⟨h.guar, h.release⟩
  rollback _ _ h := Revising.start (fun key => (h.ledger key).elim fun _ h => ⟨_, h.choose_spec.1⟩) _ _

end

/-! ### The statements -/

section
open Protocol
variable {ι α : Type} {i : ι} {O : (q : Question) → Answer q → Prop}
  {rows : List (CandleKey × StoredCandle)}

theorem keeps_leavesLedger {p : Task α} (hp : p.Emits O LeavesLedger fun _ => True) :
    (ledgerProtocol ι).Keeps O i (Revising []) p :=
  (revising_sessionInv i).keeps_of_emits (fun _ hw _ _ h => h.push hw) hp

/-- The revision of a written row is appended. -/
theorem appendRevision_written (writer : Writer) (key : CandleKey) (new row : StoredCandle) :
    (ledgerProtocol ι).Triple O i (Revising []) (fun c d => Revising rows c d ∧
        .rawCandle key ∈ c.held ∧ (c.view d).accepted key new = some row)
      (do
        emit (.putRaw writer key row)
        appendRevision key row
        pure (some (key, row)))
      fun found => Revising (rows ++ found.toList) := by
  refine Triple.seq (fun _ c d => ∃ c₀ : Ctx Write Lock, c = c₀.push (.putRaw writer key row) ∧
    Revising rows c₀ d ∧ .rawCandle key ∈ c₀.held ∧ (c₀.view d).accepted key new = some row)
    (triple_emit fun c d h => ⟨c, rfl, h⟩) fun _ => ?_
  refine Triple.bind (Triple.seq (fun s c d => ∃ c₀ : Ctx Write Lock,
    c = c₀.push (.putRaw writer key row) ∧ Revising rows c₀ d ∧ .rawCandle key ∈ c₀.held ∧
    (c₀.view d).accepted key new = some row ∧ s = c.view d) (triple_view fun c d d' h he => ?_)
    fun s => ?_) fun _ => triple_pure fun c d h => h
  · obtain ⟨c₀, rfl, hrevising, hlock, hrow⟩ := h
    have hsame := (he.1 key hlock).view c₀
    refine ⟨c₀, rfl, hrevising.stable he, hlock, ?_, rfl⟩
    obtain ⟨history, more, -, hledger⟩ := hrevising.ledger key
    rwa [hsame.accepted new hledger]
  · by_cases hnone : (s.revisions.lookup (key, row.dataRevision)).isNone = true
    · rw [if_pos hnone]
      refine triple_emit fun c d h => ?_
      obtain ⟨c₀, rfl, hrevising, hlock, hrow, -⟩ := h
      exact hrevising.push_accepted hlock hrow writer
    · rw [if_neg hnone]
      intro c d h
      obtain ⟨c₀, rfl, hrevising, hlock, hrow, rfl⟩ := h
      -- the next number is free
      obtain ⟨history, more, -, hledger⟩ := hrevising.ledger key
      have hfree := (hledger.isSome_iff row.dataRevision).not.mpr (by
        rw [hledger.accepted hrow]
        omega)
      rw [Ctx.view_push, apply_revisions] at hnone
      simp only [Option.isNone_iff_eq_none] at hnone
      rw [Option.not_isSome_iff_eq_none] at hfree
      exact absurd hfree hnone

theorem upsertRawCandle_revises (writer : Writer) (candle : Candle) :
    (ledgerProtocol ι).Triple O i (Revising []) (Revising rows) (upsertRawCandle writer candle)
      fun found => Revising (rows ++ found.toList) := by
  cases hnew : candle.excluded with
  | none =>
    unfold upsertRawCandle
    rw [hnew]
    exact triple_raise fun _ _ h => h.rows_nil
  | some new =>
    rw [upsertRawCandle_eq writer hnew]
    refine Triple.seq (fun _ c d => Revising rows c d ∧ .rawCandle candle.key ∈ c.held)
      (triple_acquire fun c d d' h he => ⟨(h.stable he).hold _, List.mem_cons_self⟩) fun _ => ?_
    refine (triple_look fun c d d' h he => ⟨h.1.stable he, h.2⟩).bind fun s => ?_
    cases hrow : s.accepted candle.key new with
    | none =>
      refine triple_pure fun c d h => ?_
      rw [Option.toList_none, List.append_nil]
      exact h.1.1
    | some row =>
      simp only [Option.elim, Database.enforce_accepted hrow, Bool.false_eq_true, if_false]
      refine (appendRevision_written writer candle.key new row).pre fun c d h => ?_
      obtain ⟨⟨hrevising, hlock⟩, rfl⟩ := h
      exact ⟨hrevising, hlock, hrow⟩

/-- The second append of `_append_raw_revisions` finds the rows of the trigger. -/
theorem appendRevision_appended {r : CandleKey × StoredCandle} (hr : r ∈ rows) :
    (ledgerProtocol ι).Keeps O i (Revising rows) (appendRevision r.1 r.2) := by
  refine Triple.seq (fun s c d => Revising rows c d ∧ s = c.view d)
    (triple_look fun c d d' h he => h.stable he) fun s => ?_
  by_cases hnone : (s.revisions.lookup (r.1, r.2.dataRevision)).isNone = true
  · rw [if_pos hnone]
    intro c d h
    obtain ⟨hrevising, rfl⟩ := h
    have hsome := (hrevising.appended r hr).2
    rw [Option.isNone_iff_eq_none] at hnone
    rw [hnone] at hsome
    cases hsome
  · rw [if_neg hnone]
    exact triple_pure fun c d h => h.1

theorem upsertRawCandles_revises (writer : Writer) (candles : List Candle) :
    (ledgerProtocol ι).Triple O i (Revising []) (Revising []) (upsertRawCandles writer candles)
      fun _ => Revising [] := by
  have hupserts : (ledgerProtocol ι).Triple O i (Revising []) (Revising [])
      (collect (upsertRawCandle writer) candles) fun changed => Revising ([] ++ changed) :=
    triple_collected (I := Revising) (fun rows c => upsertRawCandle_revises writer c) [] candles
  refine hupserts.bind fun changed => ?_
  have happends : (ledgerProtocol ι).Keeps O i (Revising changed)
      (forEach (fun r => appendRevision r.1 r.2) changed) :=
    Triple.forEach fun r hr => appendRevision_appended hr
  refine Triple.bind (happends.raises fun _ _ h => h.rows_nil) fun _ => ?_
  exact triple_pure fun _ _ h => h.rows_nil

theorem revises_commitRawBatch (writer : Writer) (assetId : ℕ) (batch : List CandlePayload) :
    (ledgerProtocol ι).Keeps O i (Revising [])
      (commitRawBatchInTransaction writer assetId batch) := by
  unfold commitRawBatchInTransaction
  split
  · exact keeps_leavesLedger trivial
  · refine (keeps_leavesLedger (emits_now anyQuestion)).bind fun now => ?_
    refine (keeps_leavesLedger (emits_ofExcept _)).bind fun candles => ?_
    refine (keeps_leavesLedger (emits_acquire _)).bind fun _ => ?_
    refine Triple.bind (upsertRawCandles_revises writer candles) fun _ => ?_
    refine (keeps_leavesLedger (emits_ofExcept _)).bind fun blocks => ?_
    exact keeps_leavesLedger ((emits_markVerifiedRawBlocks assetId blocks).mono
      fun _ => RangeWrite.leavesLedger)

theorem revises_commitBatch (writer : Writer) (assetId : ℕ) (batch : List CandlePayload) :
    (ledgerProtocol ι).Keeps O i (Revising []) (commitBatchInTransaction writer assetId batch) := by
  have hstaged (historical : List Candle) :
      (ledgerProtocol ι).Keeps O i (Revising []) (forEach upsertStagedCandle historical) :=
    keeps_leavesLedger (Emits.forEach fun c _ =>
      (emits_upsertStagedCandle c).mono fun _ => StagedWrite.leavesLedger)
  unfold commitBatchInTransaction
  split
  · exact keeps_leavesLedger trivial
  · refine (keeps_leavesLedger (emits_now anyQuestion)).bind fun now => ?_
    refine (keeps_leavesLedger (emits_ofExcept _)).bind fun candles => ?_
    refine (keeps_leavesLedger (emits_acquire _)).bind fun _ => ?_
    refine (keeps_leavesLedger (emits_now anyQuestion)).bind fun now' => ?_
    dsimp only
    split
    · refine Triple.bind (upsertRawCandles_revises writer _) fun _ => ?_
      refine (keeps_leavesLedger (emits_ofExcept _)).bind fun blocks => ?_
      refine (keeps_leavesLedger ((emits_markVerifiedRawBlocks assetId blocks).mono
        fun _ => RangeWrite.leavesLedger)).bind fun _ => hstaged _
    · exact hstaged _

theorem revises_deleteRawCandles (keys : List CandleKey) :
    (ledgerProtocol ι).Keeps O i (Revising []) (deleteRawCandles keys) := by
  have hdelete (key : CandleKey) : (ledgerProtocol ι).Keeps O i (Revising []) (deleteRawCandle key) := by
    refine Triple.seq (fun _ c d => Revising [] c d ∧ .rawCandle key ∈ c.held)
      (triple_acquire fun c d d' h he => ⟨(h.stable he).hold _, List.mem_cons_self⟩) fun _ => ?_
    refine (triple_view fun c d d' h he => ⟨h.1.stable he, h.2⟩ : (ledgerProtocol ι).Triple O i
      (Revising []) _ _ fun _ c d => Revising [] c d ∧ .rawCandle key ∈ c.held).bind fun s => ?_
    split
    · refine Triple.seq (fun _ => Revising []) (triple_emit fun c d h => h.1.push_deleteRaw h.2)
        fun _ => triple_pure fun c d h => h
    · exact triple_pure fun c d h => h.1
  have hinvalidate (key : CandleKey) :
      (ledgerProtocol ι).Keeps O i (Revising []) (invalidateSyncRange key) := by
    refine (keeps_leavesLedger (emits_acquire _)).bind fun _ => ?_
    refine (keeps_leavesLedger emits_view).bind fun d => ?_
    refine (keeps_leavesLedger (emits_lockRows _ _ _ _)).bind fun ranges => ?_
    exact keeps_leavesLedger (Emits.forEach fun r _ => (emits_emit _).mpr trivial)
  exact (Keeps.collect hdelete keys).bind fun deleted => Keeps.forEach hinvalidate deleted

theorem revises_inTransaction {body : Task α}
    (hbody : (ledgerProtocol ι).Keeps O i (Revising []) body) :
    (ledgerProtocol ι).Keeps O i (Revising []) (Task.inTransaction body) := by
  have hconnection : (ledgerProtocol ι).Keeps O i (Revising []) Task.connection :=
    keeps_leavesLedger (emits_connection anyQuestion)
  refine hconnection.bind fun _ => ((revising_sessionInv i).keeps_transaction hbody).bind fun _ => ?_
  exact hconnection.bind fun _ => keeps_leavesLedger trivial

theorem revises_mergeOnePage (dayBucket : ℤ) (pageSize jobId workerId leaseToken : ℕ) :
    (ledgerProtocol ι).Keeps O i (Revising [])
      (mergeOnePage dayBucket pageSize jobId workerId leaseToken) := by
  refine (keeps_leavesLedger (emits_ownershipLost anyQuestion)).bind fun lost => ?_
  cases lost with
  | true => exact keeps_leavesLedger trivial
  | false =>
    refine revises_inTransaction ?_
    refine (keeps_leavesLedger (mergeJobs.emits_assertOwnedLocked anyQuestion _ _ _)).bind fun _ => ?_
    refine (keeps_leavesLedger emits_view).bind fun d => ?_
    refine (keeps_leavesLedger (emits_lockRowsSkip _ _ _ _)).bind fun found => ?_
    obtain ⟨rows, complete⟩ := found
    dsimp only
    split
    · exact keeps_leavesLedger trivial
    · refine (keeps_leavesLedger (emits_ownershipLost anyQuestion)).bind fun lost => ?_
      cases lost with
      | true => exact keeps_leavesLedger trivial
      | false =>
        refine (Keeps.forEach (fun group => ?_) _).bind fun _ => ?_
        · cases group with
          | nil => exact keeps_leavesLedger trivial
          | cons row rows => exact revises_commitRawBatch _ _ _
        · have hunstage : (forEach (fun row => emit (.deleteStaged row.1)) rows : Task Unit).Emits O
              LeavesLedger fun _ => True := Emits.forEach fun row _ => (emits_emit _).mpr trivial
          exact (keeps_leavesLedger hunstage).bind fun _ => keeps_leavesLedger trivial

end

/-! ### The system -/

/-- What a transaction may do to candles; `other` stands for the statements that write neither raw
rows nor revisions. -/
inductive LedgerStatement where
  | commitBatch (writer : Writer) (assetId : ℕ) (batch : List CandlePayload)
  | commitRawBatch (writer : Writer) (assetId : ℕ) (batch : List CandlePayload)
  | deleteRawCandles (keys : List CandleKey)
  | other (statement : Task Unit)
    (writes : statement.Emits (fun _ _ => True) LeavesLedger fun _ => True)

def LedgerStatement.task : LedgerStatement → Task Unit
  | commitBatch writer assetId batch => commitBatchInTransaction writer assetId batch
  | commitRawBatch writer assetId batch => commitRawBatchInTransaction writer assetId batch
  | deleteRawCandles keys => Candles.deleteRawCandles keys
  | other statement _ => statement

/-- The programs of the sessions: transactions of any statements, and merge pages of any size. -/
inductive LedgerProgram : Task Unit → Prop
  | transaction (statements : List LedgerStatement) :
      LedgerProgram (Task.inTransaction (forEach LedgerStatement.task statements))
  | mergePage (dayBucket : ℤ) (pageSize jobId workerId leaseToken : ℕ) :
      LedgerProgram do
        let _ ← mergeOnePage dayBucket pageSize jobId workerId leaseToken
        pure ()

/-- Any number of sessions over a migrated store, whatever the surroundings answer. -/
def ledgerSystem (ι : Type) : System ι Database Write Lock Answer Failure where
  oracle _ _ := True
  programs _ := LedgerProgram
  init := Database.Seeded

section
open Protocol
variable {ι : Type}

theorem revises_statement (i : ι) (statement : LedgerStatement) :
    (ledgerProtocol ι).Keeps (fun _ _ => True) i (Revising []) statement.task := by
  cases statement with
  | commitBatch writer assetId batch => exact revises_commitBatch writer assetId batch
  | commitRawBatch writer assetId batch => exact revises_commitRawBatch writer assetId batch
  | deleteRawCandles keys => exact revises_deleteRawCandles keys
  | other statement writes => exact keeps_leavesLedger writes

theorem revises_program (i : ι) {p : Task Unit} (hp : LedgerProgram p) :
    (ledgerProtocol ι).Keeps (fun _ _ => True) i (Revising []) p := by
  cases hp with
  | transaction statements =>
    exact revises_inTransaction (Keeps.forEach (fun s => revises_statement i s) statements)
  | mergePage dayBucket pageSize jobId workerId leaseToken =>
    exact (revises_mergeOnePage _ _ _ _ _).bind fun _ => keeps_leavesLedger trivial

theorem ledgerSystem_ok [DecidableEq ι] :
    (ledgerSystem ι).Invariant (Ok (ledgerSystem ι) (ledgerProtocol ι)) := by
  have hsound : Sound (ledgerSystem ι) (ledgerProtocol ι) := fun i p d hp hd =>
    (revises_program i hp).rest (Revising.start hd [] [])
  exact sound hsound fun d hd => ⟨hd.ledgered, fun _ => trivial⟩

/-- In every reachable state the revisions of a key are numbered from one to some n and the raw row
of the key is the revision n; in every later state the revisions are the same and perhaps more. -/
theorem revisions_contiguous [DecidableEq ι] : (ledgerSystem ι).Invariant fun w =>
    (∀ key, ∃ n,
      (∀ m, (w.db.revisions.lookup (key, m)).isSome ↔ 1 ≤ m ∧ m ≤ n) ∧
      (∀ m row, w.db.revisions.lookup (key, m) = some row → row.dataRevision = m) ∧
      ∀ row, w.db.raw.lookup key = some row →
        row.dataRevision = n ∧ w.db.revisions.lookup (key, n) = some row) ∧
    ∀ w', (ledgerSystem ι).Leads w w' → ∀ key m row,
      w.db.revisions.lookup (key, m) = some row → w'.db.revisions.lookup (key, m) = some row := by
  intro w hw
  constructor
  · intro key
    obtain ⟨history, hledger⟩ := (ledgerSystem_ok w hw).inv key
    refine ⟨history.length, hledger.isSome_iff, fun m row hrow => ?_, fun row hrow => ?_⟩
    · cases m with
      | zero =>
        rw [hledger.unnumbered] at hrow
        cases hrow
      | succ m =>
        rw [hledger.row] at hrow
        exact hledger.numbered m row hrow
    · have hlast := hledger.current row hrow
      rw [List.getLast?_eq_getElem?] at hlast
      have hlt := (List.getElem?_eq_some_iff.mp hlast).1
      have hlength : history.length - 1 + 1 = history.length := by omega
      have hnumber := hledger.numbered _ row hlast
      have hrevision := hledger.row (history.length - 1)
      rw [hlength] at hnumber hrevision
      exact ⟨hnumber, hrevision.trans hlast⟩
  · intro w' hlater
    induction hlater with
    | refl => exact fun key m row h => h
    | @tail u v hbefore hs ih =>
      obtain ⟨l, hs⟩ := hs
      rcases (ledgerSystem_ok u (hw.leads hbefore)).commit_step hs with hdb | ⟨i, held, owned, -, hcommit⟩
      · rw [hdb]
        exact ih
      · exact fun key m row hrow => hcommit key m row (ih key m row hrow)

end
end Quantive.Candles
