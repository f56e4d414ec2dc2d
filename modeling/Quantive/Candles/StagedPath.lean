import Mathlib.Data.List.DropRight
import Quantive.Candles.Finality
import Quantive.Candles.Promotion

/-!
# The staged path

A historical candle reaches the raw table in two steps, through the register of its staged row.
The two steps make of the raw row what direct upserts make of it when no raw row is there or equal
values come from one source; a duplicate under another source tells the two paths apart.
-/

namespace Quantive.Candles
open Quantive.ReadCommitted Prog Protocol

/-! ### The paths -/

/-- The values and the source of a key. -/
def Database.cell (d : Database) (key : CandleKey) : Option (Ohlcv × String) :=
  (d.raw.lookup key).map fun row => (row.values, row.source)

/-- The values and the source that a candle carries. -/
def Candle.cell (c : Candle) : Option (Ohlcv × String) := c.excluded.map fun new => (new.values, new.source)

/-- Each candle upserted in a transaction of its own. -/
def upsertEach (d : Database) (writes : List Candle) : Database :=
  commitUpserts d (writes.map fun c => (.direct, [c]))

/-- Each candle staged in a transaction of its own. -/
def stageEach (d : Database) : List Candle → Database
  | [] => d
  | c :: rest =>
    match run quiet (transaction (upsertStagedCandle c)) { db := d } with
    | some (_, s) => stageEach s.db rest
    | none => d

/-- The claim of a merge worker on a day, the size of its pages and a bound on their number. -/
structure MergeRun where
  dayBucket : ℤ
  pageSize : ℕ := 1000
  jobId : ℕ
  workerId : ℕ
  leaseToken : ℕ
  pages : ℕ

/-- The database after the pages of a day, when none of them failed. -/
def mergeDay (ans : ℕ → (q : Question) → Answer q) (m : MergeRun) (d : Database) (names : ℕ) :
    Option Database :=
  match run ans (mergePages m.dayBucket m.pageSize m.jobId m.workerId m.leaseToken m.pages)
      { db := d, names := names } with
  | some (.ok _, s) => some s.db
  | _ => none

/-! ### Cells -/

def Content.cell (c : Content) : Ohlcv × String := (c.values, c.source)

theorem Database.cell_content (d : Database) (key : CandleKey) :
    d.cell key = (d.content key).map Content.cell := by
  unfold Database.cell Database.content
  rw [Option.map_map]
  rfl

theorem Content.offer_cell (old : Option Content) (new : Content) :
    (Content.offer old new).cell = Register.put sourcePriority (old.map Content.cell) new.cell := by
  cases old with
  | none => rfl
  | some old =>
    have hne : old.values ≠ new.values ↔ new.values ≠ old.values := ne_comm
    simp only [Content.offer, Option.map_some, Register.put, Content.cell, hne]
    split <;> rfl

theorem Content.offers_isSome (new : Content) (news : List Content) {old : Option Content} :
    (Content.offers old (new :: news)).isSome := by
  induction news generalizing old new with
  | nil => rfl
  | cons next news ih => exact ih next

theorem Content.offers_cell (old : Option Content) (news : List Content) :
    (Content.offers old news).map Content.cell =
      Register.puts sourcePriority (old.map Content.cell) (news.map Content.cell) := by
  induction news generalizing old with
  | nil => rfl
  | cons new news ih =>
    have hstep : (some (Content.offer old new)).map Content.cell =
        some (Register.put sourcePriority (old.map Content.cell) new.cell) :=
      congrArg some (Content.offer_cell old new)
    exact (ih _).trans (by rw [hstep]; rfl)

/-! ### Direct upserts -/

/-- The transaction of one candle offers it. -/
theorem commitUpsert_single (d : Database) (writer : Writer) {c : Candle} {new : StoredCandle}
    (hnew : c.excluded = some new) :
    ∃ rows d', commitUpsert d writer [c] = some (.ok rows, d') ∧ d'.raw = d.rawAfter c.key new := by
  obtain ⟨r, s₁, hrun, hraw, -⟩ := upsertRawCandle_run quiet writer hnew { db := d }
  obtain ⟨s₂, hrun', hraw'⟩ := appendRevisions_run quiet r.toList s₁
  have hall : run quiet (upsertRawCandles writer [c]) { db := d } = some (.ok r.toList, s₂) := by
    have hcollect : run quiet (collect (upsertRawCandle writer) [c]) { db := d } =
        some (.ok r.toList, s₁) := by
      show run quiet (upsertRawCandle writer c >>= _) _ = _
      rw [run_ok hrun]
      show some (Except.ok (r.toList ++ []), s₁) = _
      rw [List.append_nil]
    unfold upsertRawCandles
    rw [run_ok hcollect, run_ok hrun']
    rfl
  refine ⟨r.toList, s₂.committed.db, ?_, hraw'.trans hraw⟩
  unfold commitUpsert
  rw [run_transaction, hall]
  rfl

/-- A candle that the table rejects is rolled back. -/
theorem commitUpsert_rejected (d : Database) (writer : Writer) {c : Candle} (h : c.excluded = none) :
    ∃ e, commitUpsert d writer [c] = some (.error e, d) := by
  have hone : run quiet (upsertRawCandle writer c) { db := d } =
      some (.error (.database "IntegrityError"), { db := d }) := by
    unfold upsertRawCandle
    rw [h]
    rfl
  have hall : run quiet (upsertRawCandles writer [c]) { db := d } =
      some (.error (.database "IntegrityError"), { db := d }) := by
    have hcollect : run quiet (collect (upsertRawCandle writer) [c]) { db := d } =
        some (.error (.database "IntegrityError"), { db := d }) := by
      show run quiet (upsertRawCandle writer c >>= _) _ = _
      rw [run_error hone]
    unfold upsertRawCandles
    rw [run_error hcollect]
  refine ⟨.database "IntegrityError", ?_⟩
  unfold commitUpsert
  rw [run_transaction, hall]
  rfl

theorem upsertEach_cell {key : CandleKey} {writes : List Candle} (hkey : ∀ c ∈ writes, c.key = key)
    (d : Database) :
    (upsertEach d writes).cell key =
      Register.puts sourcePriority (d.cell key) (writes.filterMap Candle.cell) := by
  induction writes generalizing d with
  | nil => rfl
  | cons c rest ih =>
    have hrest : ∀ x ∈ rest, x.key = key := fun x hx => hkey x (List.mem_cons_of_mem _ hx)
    cases hnew : c.excluded with
    | none =>
      obtain ⟨e, hcommit⟩ := commitUpsert_rejected d .direct hnew
      have hnext : upsertEach d (c :: rest) = upsertEach d rest := by
        simp only [upsertEach, List.map_cons, commitUpserts, hcommit]
      have hcell : c.cell = none := by
        unfold Candle.cell
        rw [hnew]
        rfl
      rw [hnext, ih hrest, List.filterMap_cons_none hcell]
    | some new =>
      obtain ⟨rows, d', hcommit, hraw⟩ := commitUpsert_single d .direct hnew
      have hnext : upsertEach d (c :: rest) = upsertEach d' rest := by
        simp only [upsertEach, List.map_cons, commitUpserts, hcommit]
      have hcell : c.cell = some new.content.cell := by
        unfold Candle.cell
        rw [hnew]
        rfl
      have hafter : d'.cell key = some (Register.put sourcePriority (d.cell key) new.content.cell) := by
        rw [Database.cell_content, Database.content, hraw, ← hkey c List.mem_cons_self,
          Database.rawAfter_content, Database.cell_content]
        exact congrArg some (Content.offer_cell _ _)
      rw [hnext, ih hrest, hafter, List.filterMap_cons_some hcell]
      rfl

/-! ### Staging -/

/-- The transaction of one staged candle offers it to the staged row and leaves the raw rows. -/
theorem stage_single (d : Database) {c : Candle} {new : StoredCandle}
    (hnew : c.excluded = some new) :
    ∃ s, run quiet (transaction (upsertStagedCandle c)) { db := d } = some (.ok (), s) ∧
      s.db.raw = d.raw ∧
      s.db.stagedContent c.key = some (Content.offer (d.stagedContent c.key) new.content) := by
  have hput : ∀ row : StoredCandle, (Store.apply (Write.putStaged c.key row) d).staging.lookup c.key =
      some row := fun row => AList.lookup_insert _
  rw [run_transaction]
  unfold upsertStagedCandle Database.stagedContent
  simp only [hnew]
  rw [run_ok (run_acquire _ _), run_ok (run_view _)]
  have hview : (({ db := d } : Alone Database Write Lock).hold (.stagedCandle c.key)).view.staging =
      d.staging := rfl
  rw [hview]
  cases hold : d.staging.lookup c.key with
  | none =>
    refine ⟨_, rfl, ?_, ?_⟩
    · rfl
    show ((Store.apply (Write.putStaged c.key new) d).staging.lookup c.key).map _ = _
    rw [hput]
    rfl
  | some old =>
    have hcontent := conflictUpdate_content old new
    cases hrow : conflictUpdate old new with
    | none =>
      rw [hrow] at hcontent
      simp only [hrow]
      refine ⟨_, rfl, ?_, ?_⟩
      · rfl
      show (d.staging.lookup c.key).map _ = _
      rw [hold]
      exact congrArg some hcontent
    | some row =>
      rw [hrow] at hcontent
      simp only [hrow]
      refine ⟨_, rfl, ?_, ?_⟩
      · rfl
      show ((Store.apply (Write.putStaged c.key row) d).staging.lookup c.key).map _ = _
      rw [hput]
      exact congrArg some hcontent

theorem stage_rejected (d : Database) {c : Candle} (h : c.excluded = none) :
    ∃ e s, run quiet (transaction (upsertStagedCandle c)) { db := d } = some (.error e, s) ∧
      s.db = d := by
  have hone : run quiet (upsertStagedCandle c) { db := d } =
      some (.error (.database "IntegrityError"), { db := d }) := by
    unfold upsertStagedCandle
    rw [h]
    rfl
  refine ⟨.database "IntegrityError", Alone.rolledBack { db := d }, ?_, rfl⟩
  rw [run_transaction, hone]

theorem stageEach_content {key : CandleKey} {writes : List Candle}
    (hkey : ∀ c ∈ writes, c.key = key) (d : Database) :
    ∃ news, news.map Content.cell = writes.filterMap Candle.cell ∧
      (stageEach d writes).stagedContent key = Content.offers (d.stagedContent key) news ∧
      (stageEach d writes).raw = d.raw := by
  induction writes generalizing d with
  | nil => exact ⟨[], rfl, rfl, rfl⟩
  | cons c rest ih =>
    have hkeys : ∀ x ∈ rest, x.key = key := fun x hx => hkey x (List.mem_cons_of_mem _ hx)
    cases hnew : c.excluded with
    | none =>
      obtain ⟨e, s, hrun, hsame⟩ := stage_rejected d hnew
      have hnext : stageEach d (c :: rest) = stageEach d rest := by
        simp only [stageEach, hrun, hsame]
      have hcell : c.cell = none := by
        unfold Candle.cell
        rw [hnew]
        rfl
      rw [hnext, List.filterMap_cons_none hcell]
      exact ih hkeys d
    | some new =>
      obtain ⟨s, hrun, hraw, hstaged⟩ := stage_single d hnew
      have hnext : stageEach d (c :: rest) = stageEach s.db rest := by
        simp only [stageEach, hrun]
      have hcell : c.cell = some new.content.cell := by
        unfold Candle.cell
        rw [hnew]
        rfl
      obtain ⟨news, hcells, hrest, hsame⟩ := ih hkeys s.db
      rw [hkey c List.mem_cons_self] at hstaged
      refine ⟨new.content :: news, ?_, ?_, ?_⟩
      · rw [List.map_cons, hcells, List.filterMap_cons_some hcell]
      · rw [hnext, hrest, hstaged]
        rfl
      · rw [hnext, hsame, hraw]

/-! ### Merging -/

/-- Between two pages the key is as it was, or its staged row was offered and is gone. -/
def Merging (key : CandleKey) (staged : Option StoredCandle) (old : Option Content)
    (d : Database) : Prop :=
  (d.staging.lookup key = staged ∧ d.content key = old) ∨
    d.staging.lookup key = none ∧ ∃ row now new, staged = some row ∧ Promotes now row new ∧
      d.content key = some (Content.offer old new)

theorem merging_page {key : CandleKey} {staged : Option StoredCandle} {old : Option Content}
    {c : Ctx Write Lock} {d : Database} (h : Promoted c d) (hd : Merging key staged old d) :
    Merging key staged old (c.view d) := by
  obtain ⟨rows, offered, hnodup, hmatches, hpage, hoffered, hgone⟩ := h
  by_cases hin : ∃ r ∈ rows, r.1 = key
  · obtain ⟨r, hr, rfl⟩ := hin
    obtain ⟨now, new, hpromotes, honce⟩ := hmatches.offersFor hnodup hr
    have hrow := (hpage.locked r hr).2
    rcases hd with ⟨hstaged, hold⟩ | ⟨hnone, -⟩
    · refine Or.inr ⟨hgone r hr d, r.2, now, new, hstaged.symm.trans hrow, hpromotes, ?_⟩
      rw [hoffered.content, honce, hold]
      rfl
    · rw [hnone] at hrow
      cases hrow
  · have hothers : ∀ r ∈ rows, r.1 ≠ key := fun r hr he => hin ⟨r, hr, he⟩
    have hraw : (c.view d).content key = d.content key := by
      have hkeys : ∀ o ∈ offered, o.1 ≠ key := by
        intro o ho he
        have hmem : o.1 ∈ offered.map (·.1) := List.mem_map_of_mem ho
        rw [hmatches.keys] at hmem
        obtain ⟨r, hr, hre⟩ := List.mem_map.mp hmem
        exact hothers r hr (hre.trans he)
      unfold Database.content
      rw [hoffered.untouched key hkeys]
    unfold Merging
    rw [hpage.others key hothers, hraw]
    exact hd

theorem mergePages_merging {key : CandleKey} {staged : Option StoredCandle} {old : Option Content}
    {O : (q : Question) → Answer q → Prop} (dayBucket : ℤ)
    (pageSize jobId workerId leaseToken pages : ℕ) :
    (solo Database Lock).Keeps O () (fun c d => Unwritten c d ∧ Merging key staged old d)
      (mergePages dayBucket pageSize jobId workerId leaseToken pages) := by
  have hB : ∀ (c : Ctx Write Lock) d d', Merging key staged old d →
      (solo Database Lock).Env () c d d' → Merging key staged old d' := by
    intro c d d' h he
    rwa [solo_env he]
  induction pages with
  | zero => exact triple_stuck
  | succ pages ih =>
    refine Triple.seq (fun _ c d => Unwritten c d ∧ Merging key staged old d) ?_ fun lost => ?_
    · exact triple_query fun c d r h _ => h
    · cases lost with
      | true => exact triple_raise fun _ _ h => h
      | false =>
        refine (mergeOnePage_keeps locksRows_solo hB (fun c d h hd =>
          ⟨solo_guar c d _, merging_page h hd⟩) _ _ _ _ _).bind fun count => ?_
        split
        · exact triple_pure fun _ _ h => h
        · exact ih

theorem mergeDay_merging {ans : ℕ → (q : Question) → Answer q} {m : MergeRun} {d merged : Database}
    {names : ℕ} (h : mergeDay ans m d names = some merged) (key : CandleKey) :
    Merging key (d.staging.lookup key) (d.content key) merged := by
  unfold mergeDay at h
  cases hrun : run ans (mergePages m.dayBucket m.pageSize m.jobId m.workerId m.leaseToken m.pages)
      { db := d, names := names } with
  | none =>
    rw [hrun] at h
    cases h
  | some r =>
    obtain ⟨r, s⟩ := r
    rw [hrun] at h
    cases r with
    | error e => cases h
    | ok u =>
      cases h
      have hkeeps : (solo Database Lock).Keeps (fun _ _ => True) ()
          (fun c d' => Unwritten c d' ∧ Merging key (d.staging.lookup key) (d.content key) d')
          (mergePages m.dayBucket m.pageSize m.jobId m.workerId m.leaseToken m.pages) :=
        mergePages_merging m.dayBucket m.pageSize m.jobId m.workerId m.leaseToken m.pages
      have hstart : Unwritten {} d ∧ Merging key (d.staging.lookup key) (d.content key) d :=
        ⟨rfl, Or.inl ⟨rfl, rfl⟩⟩
      exact (run_of_wp (fun _ _ => trivial) (solo_undrawn d names) (hkeeps {} d hstart) hrun).1.2

/-! ### Sources -/

theorem toLower_toNat (c : Char) :
    c.toLower.toNat = if 65 ≤ c.toNat ∧ c.toNat ≤ 90 then c.toNat + 32 else c.toNat := by
  unfold Char.toLower
  by_cases h : c.val ≥ 'A'.val ∧ c.val ≤ 'Z'.val
  · have hrange : 65 ≤ c.toNat ∧ c.toNat ≤ 90 := h
    have hadd : (c.val + 32).toNat = (c.val.toNat + 32) % 2 ^ 32 := UInt32.toNat_add c.val 32
    have hsmall : c.val.toNat ≤ 90 := hrange.2
    rw [dif_pos h, if_pos hrange]
    show (c.val + 32).toNat = c.val.toNat + 32
    omega
  · have hrange : ¬ (65 ≤ c.toNat ∧ c.toNat ≤ 90) := h
    rw [dif_neg h, if_neg hrange]

theorem toLower_toLower (c : Char) : c.toLower.toLower = c.toLower := by
  have hlow : c.toLower.toLower.toNat = c.toLower.toNat := by
    rw [toLower_toNat c.toLower, toLower_toNat c]
    split_ifs <;> omega
  exact Char.ext (UInt32.toNat_inj.mp hlow)

theorem isSpace_toLower (c : Char) : isSpace c.toLower = isSpace c := by
  unfold isSpace
  rw [toLower_toNat, Bool.eq_iff_iff]
  simp only [Bool.or_eq_true, Bool.and_eq_true, decide_eq_true_eq]
  split_ifs <;> omega

theorem strip_map {f : Char → Char} (hf : ∀ c, isSpace (f c) = isSpace c) (cs : List Char) :
    strip (cs.map f) = (strip cs).map f := by
  have hdrop : ∀ xs : List Char, (xs.map f).dropWhile isSpace = (xs.dropWhile isSpace).map f := by
    intro xs
    rw [List.dropWhile_map, show isSpace ∘ f = isSpace from funext hf]
  unfold strip
  rw [hdrop, ← List.map_reverse, hdrop, List.map_reverse]

theorem strip_strip (cs : List Char) : strip (strip cs) = strip cs := by
  have hfix : (strip cs).dropWhile isSpace = strip cs := by
    rw [List.dropWhile_eq_self_iff]
    intro hne
    have hpre : strip cs <+: cs.dropWhile isSpace := List.rdropWhile_prefix isSpace _
    have hlen : 0 < (cs.dropWhile isSpace).length := hne.trans_le hpre.length_le
    rw [hpre.getElem hne]
    exact List.dropWhile_get_zero_not isSpace cs hlen
  have hlast : List.rdropWhile isSpace (strip cs) = strip cs := List.rdropWhile_idempotent isSpace _
  calc strip (strip cs) = List.rdropWhile isSpace ((strip cs).dropWhile isSpace) := rfl
    _ = strip cs := by rw [hfix, hlast]

/-- A validated source passes its own validation. -/
theorem payloadSource_validated {source : Option String} {s : String}
    (h : payloadSource source = .ok s) : payloadSource (some s) = .ok s := by
  unfold payloadSource at h ⊢
  dsimp only at h
  generalize hxs : strip (source.getD "unknown").toList = xs at h
  have hstrip : strip xs = xs := by rw [← hxs, strip_strip]
  by_cases hlen : xs = [] ∨ 64 < xs.length
  · rw [if_pos hlen] at h
    cases h
  · rw [if_neg hlen] at h
    cases h
    have hagain : strip (String.ofList (xs.map Char.toLower)).toList = xs.map Char.toLower := by
      rw [String.toList_ofList, strip_map isSpace_toLower, hstrip]
    have hlower : (xs.map Char.toLower).map Char.toLower = xs.map Char.toLower := by
      rw [List.map_map]
      exact List.map_congr_left fun c _ => toLower_toLower c
    have hfits : ¬ (xs.map Char.toLower = [] ∨ 64 < (xs.map Char.toLower).length) := by
      rwa [List.map_eq_nil_iff, List.length_map]
    rw [Option.getD_some, hagain]
    dsimp only
    rw [if_neg hfits, hlower]

/-! ### The two paths -/

/-- The staged path agrees with the direct one where the key has no raw row, or the row and the
writes with equal values have one source. -/
theorem staged_path_agrees {key : CandleKey} {writes : List Candle} (hkey : ∀ c ∈ writes, c.key = key)
    (hvalid : ∀ c ∈ writes, ∃ assetId now p, validateCandlePayload assetId now p = .ok c)
    {d merged : Database} (hunstaged : d.staging.lookup key = none)
    {ans : ℕ → (q : Question) → Answer q} {m : MergeRun} {names : ℕ}
    (hmerge : mergeDay ans m (stageEach d writes) names = some merged)
    (htaken : merged.staging.lookup key = none)
    (hagree : ∀ cell, d.cell key = some cell →
      Register.Agree (cell :: writes.filterMap Candle.cell)) :
    merged.cell key = (upsertEach d writes).cell key := by
  obtain ⟨news, hcells, hstaged, hraw⟩ := stageEach_content hkey d
  have hempty : d.stagedContent key = none := by
    unfold Database.stagedContent
    rw [hunstaged]
    rfl
  rw [hempty] at hstaged
  have hold : (stageEach d writes).content key = d.content key := by
    unfold Database.content
    rw [hraw]
  rw [upsertEach_cell hkey]
  rcases mergeDay_merging hmerge key with ⟨hleft, hsame⟩ | ⟨-, row, now, new, hrow, hpromotes, hput⟩
  · -- nothing was staged, so nothing was written
    have hnone : (stageEach d writes).stagedContent key = none := by
      unfold Database.stagedContent
      rw [← hleft, htaken]
      rfl
    have hnil : news = [] := by
      cases news with
      | nil => rfl
      | cons new rest =>
        have hsome : (Content.offers none (new :: rest)).isSome := Content.offers_isSome _ _
        rw [← hstaged, hnone] at hsome
        cases hsome
    rw [hnil] at hcells
    rw [← hcells, Database.cell_content, Database.cell_content, hsame, hold]
    rfl
  · have hlast : Register.puts sourcePriority none (writes.filterMap Candle.cell) =
        some row.content.cell := by
      have hrowContent : (stageEach d writes).stagedContent key = some row.content := by
        unfold Database.stagedContent
        rw [hrow]
        rfl
      have hoffers := Content.offers_cell none news
      rw [← hstaged, hrowContent, hcells] at hoffers
      exact hoffers.symm
    obtain ⟨hmem, hagain⟩ := Register.puts_of_none hlast
    have hnew : new.cell = row.content.cell := by
      obtain ⟨c, hc, hcell⟩ := List.mem_filterMap.mp hmem
      obtain ⟨assetId, at_, p, hok⟩ := hvalid c hc
      have hsource : payloadSource (some c.source) = .ok c.source :=
        payloadSource_validated (validateCandlePayload_ok hok).2.2.2.1
      have hrowSource : row.source = c.source := by
        obtain ⟨stored, hstored, he⟩ := Option.map_eq_some_iff.mp hcell
        exact (congrArg Prod.snd he).symm.trans (Candle.excluded_eq hstored).1
      have hpassed := hpromotes.source
      rw [hrowSource, hsource] at hpassed
      have hsame : new.source = row.source := (Except.ok.inj hpassed).symm.trans hrowSource.symm
      exact Prod.ext hpromotes.values hsame
    rw [Database.cell_content, hput, hold]
    rw [Database.cell_content] at hagree ⊢
    show some (Content.offer (d.content key) new).cell = _
    rw [Content.offer_cell, hnew]
    cases hstart : d.content key with
    | none => exact hlast.symm
    | some old =>
      rw [hstart] at hagree
      exact (hagain old.cell (hagree old.cell rfl)).symm

/-! ### Flat candles -/

/-- The payload and the candle of one price at minute 0 of asset 1. -/
def flatPayload (source : String) (price : ℚ) : CandlePayload :=
  { timestamp := 0, «open» := some price, high := some price, low := some price
    close := some price, volume := some 1, source := some source }

def flatWrite (source : String) (price : ℚ) : Candle :=
  { flatCandle source price with sourceReceivedAt := some 0 }

theorem flatWrite_valid {source : String} {price : ℚ}
    (hsource : payloadSource (some source) = .ok source)
    (hvalues : payloadValues (flatPayload source price) = .ok (flatWrite source price).values) :
    validateCandlePayload 1 0 (flatPayload source price) = .ok (flatWrite source price) := by
  have haligned : (flatPayload source price).timestamp % minute = 0 := Int.zero_emod minute
  have hsame : payloadSource (flatPayload source price).source = .ok source := hsource
  unfold validateCandlePayload
  rw [dif_pos haligned, hvalues, hsame]
  rfl

theorem rest_valid : validateCandlePayload 1 0 (flatPayload "binance_rest" 1) =
    .ok (flatWrite "binance_rest" 1) :=
  flatWrite_valid (by decide +kernel) (by decide +kernel)

theorem webSocket_valid : validateCandlePayload 1 0 (flatPayload "binance_ws" 3) =
    .ok (flatWrite "binance_ws" 3) :=
  flatWrite_valid (by decide +kernel) (by decide +kernel)

/-- A database whose merge job of day 0 is claimed. -/
def merging (raw : Table CandleKey StoredCandle) : Database :=
  { raw := raw
    mergeJobs := AList.insert 0 { dayBucket := 0, status := .processing, createdAt := 0
                                  claim := some ⟨0, 0, 0, 1⟩ } ∅ }

def mergeRun : MergeRun := { dayBucket := 0, jobId := 0, workerId := 0, leaseToken := 0, pages := 2 }

/-- What the staged path and the direct path make of minute 0, and the staged row that is left. -/
def bothPaths (raw : Table CandleKey StoredCandle) (writes : List Candle) :
    Option (Option StoredCandle × Option (Ohlcv × String)) × Option (Ohlcv × String) :=
  let key : CandleKey := ⟨1, 0, Int.zero_emod minute⟩
  ((mergeDay quiet mergeRun (stageEach (merging raw) writes) 0).map fun d =>
      (d.staging.lookup key, d.cell key),
    (upsertEach (merging raw) writes).cell key)

/-- Without a raw row the paths meet. -/
theorem staged_path_agrees_empty : ∃ merged,
    mergeDay quiet mergeRun (stageEach (merging ∅) [flatWrite "binance_rest" 1, flatWrite "binance_ws" 3])
      0 = some merged ∧
    merged.cell ⟨1, 0, by decide⟩ =
      (upsertEach (merging ∅) [flatWrite "binance_rest" 1, flatWrite "binance_ws" 3]).cell
        ⟨1, 0, by decide⟩ := by
  have hrun : (bothPaths ∅ [flatWrite "binance_rest" 1, flatWrite "binance_ws" 3]).1.map Prod.fst =
      some none := by decide +kernel
  obtain ⟨r, hr, htaken⟩ := Option.map_eq_some_iff.mp hrun
  obtain ⟨merged, hmerge, rfl⟩ := Option.map_eq_some_iff.mp hr
  refine ⟨merged, hmerge, staged_path_agrees (by simp [flatWrite, flatCandle]) ?_ rfl hmerge htaken ?_⟩
  · intro c hc
    rcases List.mem_cons.mp hc with rfl | hc
    · exact ⟨1, 0, _, rest_valid⟩
    · rw [List.mem_singleton.mp hc]
      exact ⟨1, 0, _, webSocket_valid⟩
  · intro cell hcell
    cases hcell

/-- A duplicate under another source protects its value in the staged row and not in the raw one. -/
theorem staged_duplicate_protects :
    (∀ c ∈ [flatWrite "binance_rest" 1, flatWrite "binance_ws" 3], ∃ assetId now p,
      validateCandlePayload assetId now p = .ok c) ∧
    bothPaths afterWebSocket.raw [flatWrite "binance_rest" 1, flatWrite "binance_ws" 3] =
      (some (none, some (⟨1, 1, 1, 1, 1⟩, "binance_ws")), some (⟨3, 3, 3, 3, 1⟩, "binance_ws")) := by
  refine ⟨fun c hc => ?_, by decide +kernel⟩
  rcases List.mem_cons.mp hc with rfl | hc
  · exact ⟨1, 0, _, rest_valid⟩
  · rw [List.mem_singleton.mp hc]
    exact ⟨1, 0, _, webSocket_valid⟩

end Quantive.Candles
