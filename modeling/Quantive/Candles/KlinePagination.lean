import Mathlib.Logic.Relation
import Quantive.Candles.Binance
import Quantive.Candles.Exchange

/-!
# Pagination of klines

What `get_klines` yields when the server answers with pages of a history, and how far its loop can
go when the server answers with anything.
-/

namespace Quantive.Candles
open Quantive.ReadCommitted Prog

/-! ### One page -/

/-- A consumer that keeps what is yielded. -/
def collectCandle (candles : List CandlePayload) (c : CandlePayload) : Task (List CandlePayload) :=
  pure (candles ++ [c])

/-- The loop over the elements gets through the page. -/
def AllAccepted (elements : List (Option Kline)) : Prop :=
  ∀ e ∈ elements, ∃ k, e = some k ∧ checkKline k.values = .ok ()

/-- The candle is the kline as it was received at some instant. -/
def Kline.ShownAs (k : Kline) (c : CandlePayload) : Prop := ∃ receivedAt, c = k.payload receivedAt

section
variable {ans : ℕ → (q : Question) → Answer q} {s : Alone Database Write Lock}

theorem yields_accepted {elements : List (Option Kline)} (h : AllAccepted elements)
    (got : List CandlePayload) : Yields ans (yieldKlines collectCandle elements got) s
      fun candles s' => (∃ ks more, elements = ks.map some ∧ List.Forall₂ Kline.ShownAs ks more ∧
        candles = got ++ more) ∧ s'.asked = s.asked + elements.length := by
  induction elements generalizing got s with
  | nil => exact yields_pure ⟨⟨[], [], rfl, .nil, (List.append_nil got).symm⟩, rfl⟩
  | cons e elements ih =>
    obtain ⟨k, rfl, hk⟩ := h e List.mem_cons_self
    have hrest : AllAccepted elements := fun e he => h e (List.mem_cons_of_mem _ he)
    unfold yieldKlines
    rw [hk]
    refine yields_query ?_
    obtain ⟨receivedAt, hnow⟩ : ∃ t : ℤ, t = ans s.asked .now := ⟨_, rfl⟩
    rw [← hnow]
    refine (ih (s := s.answered) hrest (got ++ [k.payload receivedAt])).mono ?_
    rintro candles s' ⟨⟨ks, more, rfl, hshown, rfl⟩, hasked⟩
    refine ⟨⟨k :: ks, k.payload receivedAt :: more, rfl, .cons ⟨_, rfl⟩ hshown, ?_⟩, ?_⟩
    · rw [List.append_assoc]
      rfl
    · rw [hasked, List.length_cons]
      show s.asked + 1 + _ = _
      omega

theorem run_rejected {elements : List (Option Kline)} (h : ¬ AllAccepted elements)
    (got : List CandlePayload) :
    ∃ e s', run ans (yieldKlines collectCandle elements got) s = some (.error e, s') := by
  induction elements generalizing got s with
  | nil => exact absurd (fun _ he => absurd he List.not_mem_nil) h
  | cons e elements ih =>
    cases e with
    | none => exact ⟨_, _, rfl⟩
    | some k =>
      unfold yieldKlines
      cases hk : checkKline k.values with
      | error e => exact ⟨_, _, rfl⟩
      | ok u =>
        have hrest : ¬ AllAccepted elements := by
          intro hall
          refine h fun e he => ?_
          rcases List.mem_cons.mp he with rfl | he
          · exact ⟨k, rfl, hk⟩
          · exact hall e he
        exact ih (s := s.answered) hrest _

end

/-! ### Requests -/

section
variable {ans : ℕ → (q : Question) → Answer q} {s : Alone Database Write Lock} {symbol : String}
  {stop current : ℤ} {fuel : ℕ} {σ : Type} {consume : σ → CandlePayload → Task σ} {got : σ}

/-- A page is yielded, and the loop goes on behind a full one. -/
theorem run_page {elements : List (Option Kline)} (hopen : current < stop)
    (hr : ans s.asked (.klines ⟨symbol, current, stop, klinesLimit⟩) = KlinesResponse.klines elements) :
    run ans (klinePages consume symbol stop (fuel + 1) current got) s =
      run ans (do
        let got ← yieldKlines consume elements got
        if elements.length < klinesLimit then pure got
        else klinePages consume symbol stop fuel (lastOpenTime elements + 1) got)
        s.answered := by
  rw [klinePages, if_pos hopen, run_ok (run_query _ s), hr]
  cases elements with
  | nil => rfl
  | cons e elements => rfl

/-- The rule of the loop over a page, over the klines so far; `all` are the klines of the stream. -/
theorem yields_yieldKlines {I : List Kline → σ → Alone Database Write Lock → Prop} {all : List Kline}
    (hasked : ∀ seen got s, I seen got s → I seen got s.answered)
    (hconsume : ∀ seen k got s receivedAt, seen ++ [k] <+: all → I seen got s →
      Yields ans (consume got (k.payload receivedAt)) s fun got' s' => I (seen ++ [k]) got' s')
    {seen elements : List Kline} (hall : seen ++ elements <+: all)
    (haccepted : ∀ k ∈ elements, checkKline k.values = .ok ()) (h : I seen got s) :
    Yields ans (yieldKlines consume (elements.map some) got) s fun got' s' =>
      I (seen ++ elements) got' s' := by
  induction elements generalizing seen got s with
  | nil =>
    rw [List.append_nil]
    exact yields_pure h
  | cons k elements ih =>
    rw [List.append_cons] at hall ⊢
    rw [List.map_cons]
    unfold yieldKlines
    rw [haccepted k List.mem_cons_self]
    refine yields_query ?_
    have hfirst : seen ++ [k] <+: all := List.IsPrefix.trans ⟨elements, rfl⟩ hall
    refine (hconsume seen k got s.answered _ hfirst (hasked _ _ _ h)).bind fun got' s' h' => ?_
    exact ih hall (fun k hk => haccepted k (List.mem_cons_of_mem _ hk)) h'

end

/-! ### A history -/

/-- The klines of a symbol by their open time, with any minutes left out. -/
structure History where
  kline : ℤ → Option Kline
  openTime : ∀ t k, kline t = some k → k.openTimeMs = t ∧ t % minuteMs = 0
  valid : ∀ t k, kline t = some k → checkKline k.values = .ok ()

namespace History
variable (history : History)

/-- The klines of `[start, stop]` in order. -/
def klines (start stop : ℤ) : List Kline := (minutesIn start stop).filterMap history.kline

/-- The first klines of the request. -/
def page (request : KlinesRequest) : KlinesResponse :=
  .klines (((history.klines request.startTime request.endTime).take request.limit).map some)

/-- Surroundings in which nothing fails. -/
def server : ℕ → (q : Question) → Answer q
  | n, .now => (n : ℤ)
  | _, .fault => (none : Option Failure)
  | _, .ownershipLost => false
  | _, .klines request => history.page request

variable {history} {start stop : ℤ}

theorem mem_klines {k : Kline} : k ∈ history.klines start stop ↔
    history.kline k.openTimeMs = some k ∧ start ≤ k.openTimeMs ∧ k.openTimeMs ≤ stop := by
  unfold klines
  rw [List.mem_filterMap]
  constructor
  · rintro ⟨t, ht, hk⟩
    obtain ⟨hlow, hhigh, -⟩ := mem_minutesIn.mp ht
    have hopen := (history.openTime t k hk).1
    subst hopen
    exact ⟨hk, hlow, hhigh⟩
  · rintro ⟨hk, hlow, hhigh⟩
    exact ⟨_, mem_minutesIn.mpr ⟨hlow, hhigh, (history.openTime _ k hk).2⟩, hk⟩

theorem klines_sorted (history : History) (start stop : ℤ) :
    (history.klines start stop).Pairwise fun j k => j.openTimeMs < k.openTimeMs := by
  have hminutes : (minutesIn start stop).Pairwise (· < ·) := by
    unfold minutesIn
    rw [List.pairwise_map]
    refine List.pairwise_lt_range.imp fun {i j} hij => ?_
    unfold minuteMs
    omega
  refine List.Pairwise.filterMap _ (fun t t' hlt k hk k' hk' => ?_) hminutes
  rw [(history.openTime t k hk).1, (history.openTime t' k' hk').1]
  exact hlt

/-- What a page leaves is what opens behind its last kline. -/
theorem klines_after {n : ℕ} {last : Kline}
    (hlast : ((history.klines start stop).take n).getLast? = some last) :
    (history.klines start stop).drop n = history.klines (last.openTimeMs + 1) stop := by
  have hsorted := history.klines_sorted start stop
  have hmem : last ∈ (history.klines start stop).take n := List.mem_of_getLast? hlast
  have hsplit := hsorted
  rw [← List.take_append_drop n (history.klines start stop), List.pairwise_append] at hsplit
  obtain ⟨hfront, hback, hcross⟩ := hsplit
  have hupto : ∀ k ∈ (history.klines start stop).take n, k.openTimeMs ≤ last.openTimeMs := by
    intro k hk
    obtain ⟨init, hinit⟩ := List.getLast?_eq_some_iff.mp hlast
    rw [hinit] at hk hfront
    rcases List.mem_append.mp hk with hk | hk
    · have hlt := (List.pairwise_append.mp hfront).2.2 k hk last (List.mem_singleton_self _)
      exact hlt.le
    · rw [List.mem_singleton.mp hk]
  have hnodup : ∀ {ks : List Kline}, (ks.Pairwise fun j k => j.openTimeMs < k.openTimeMs) → ks.Nodup :=
    fun h => h.imp fun hlt heq => (heq ▸ hlt).false
  have hafter := history.klines_sorted (last.openTimeMs + 1) stop
  have hperm : ((history.klines start stop).drop n).Perm
      (history.klines (last.openTimeMs + 1) stop) := by
    refine (List.perm_ext_iff_of_nodup (hnodup hback) (hnodup hafter)).mpr fun k => ?_
    constructor
    · intro hk
      have hlt := hcross last hmem k hk
      obtain ⟨hkline, -, hhigh⟩ := mem_klines.mp (List.mem_of_mem_drop hk)
      exact mem_klines.mpr ⟨hkline, hlt, hhigh⟩
    · intro hk
      obtain ⟨hkline, hlow, hhigh⟩ := mem_klines.mp hk
      have hfrom := (mem_klines.mp (List.mem_of_mem_take hmem)).2.1
      have hall := mem_klines.mpr ⟨hkline, (by omega : start ≤ k.openTimeMs), hhigh⟩
      rw [← List.take_append_drop n (history.klines start stop)] at hall
      rcases List.mem_append.mp hall with hfirst | hrest
      · have hle := hupto k hfirst
        omega
      · exact hrest
  exact hperm.eq_of_pairwise (fun j k _ _ hjk hkj => absurd hjk (not_lt.mpr hkj.le)) hback hafter

end History

/-! ### Pages of a history -/

section
variable {ans : ℕ → (q : Question) → Answer q} {s : Alone Database Write Lock} {history : History}
  {symbol : String}

/-- The rule of a stream, over the klines so far. -/
theorem yields_klinePages {σ : Type} {consume : σ → CandlePayload → Task σ} {got : σ}
    {I : List Kline → σ → Alone Database Write Lock → Prop} {all : List Kline}
    (hserver : ∀ n request, ans n (.klines request) = history.page request)
    (hasked : ∀ seen got s, I seen got s → I seen got s.answered)
    (hconsume : ∀ seen k got s receivedAt, seen ++ [k] <+: all → I seen got s →
      Yields ans (consume got (k.payload receivedAt)) s fun got' s' => I (seen ++ [k]) got' s')
    {current stop : ℤ} (hstop : current < stop ∨ history.klines current stop = []) {fuel : ℕ}
    (hfuel : (stop - current).toNat < fuel) {seen : List Kline}
    (hall : seen ++ history.klines current stop = all) (h : I seen got s) :
    Yields ans (klinePages consume symbol stop fuel current got) s fun got' s' => I all got' s' := by
  induction fuel generalizing current got s seen with
  | zero => omega
  | succ fuel ih =>
    by_cases hopen : current < stop
    · obtain ⟨elements, helements⟩ : ∃ ks, ks = (history.klines current stop).take klinesLimit :=
        ⟨_, rfl⟩
      have haccepted : ∀ k ∈ elements, checkKline k.values = .ok () := by
        intro k hk
        rw [helements] at hk
        exact history.valid _ k (History.mem_klines.mp (List.mem_of_mem_take hk)).1
      have hin : seen ++ elements <+: all := by
        refine ⟨(history.klines current stop).drop klinesLimit, ?_⟩
        rw [helements, List.append_assoc, List.take_append_drop, hall]
      have hr := hserver s.asked ⟨symbol, current, stop, klinesLimit⟩
      unfold History.page at hr
      dsimp only at hr
      rw [← helements] at hr
      unfold Yields
      rw [run_page hopen hr]
      refine (yields_yieldKlines hasked hconsume hin haccepted (hasked _ _ _ h)).bind ?_
      intro got' s₁ h₁
      rw [List.length_map]
      split
      · -- a short page was the last one
        rename_i hshort
        have hwhole : elements = history.klines current stop := by
          rw [helements, List.length_take] at hshort
          exact helements.trans (List.take_of_length_le (by omega))
        rw [hwhole, hall] at h₁
        exact yields_pure h₁
      · rename_i hfull
        obtain ⟨last, hlast⟩ : ∃ last, elements.getLast? = some last := by
          cases hlast : elements.getLast? with
          | none =>
            rw [List.getLast?_eq_none_iff.mp hlast] at hfull
            exact absurd (by decide : ([] : List Kline).length < klinesLimit) hfull
          | some last => exact ⟨last, rfl⟩
        have hlastTime : lastOpenTime (elements.map some) = last.openTimeMs := by
          unfold lastOpenTime
          rw [List.getLast?_map, hlast]
          rfl
        rw [hlastTime]
        have hmem : last ∈ history.klines current stop := by
          have hin := List.mem_of_getLast? hlast
          rw [helements] at hin
          exact List.mem_of_mem_take hin
        obtain ⟨hkline, hlow, hhigh⟩ := History.mem_klines.mp hmem
        rw [helements] at hlast
        have hafter := History.klines_after hlast
        -- at the end of the window no minute is left to ask for
        have hnext : last.openTimeMs + 1 < stop ∨
            history.klines (last.openTimeMs + 1) stop = [] := by
          by_cases hmore : last.openTimeMs + 1 < stop
          · exact .inl hmore
          · refine .inr (List.eq_nil_iff_forall_not_mem.mpr fun k hk => ?_)
            obtain ⟨hk, hlow', hhigh'⟩ := History.mem_klines.mp hk
            have hmod := (history.openTime _ _ hk).2
            have hmod' := (history.openTime _ _ hkline).2
            unfold minuteMs at hmod hmod'
            omega
        have hrest : seen ++ elements ++ history.klines (last.openTimeMs + 1) stop = all := by
          rw [← hafter, helements, List.append_assoc, List.take_append_drop, hall]
        exact ih hnext (by omega) hrest h₁
    · rw [klinePages, if_neg hopen]
      rcases hstop with hlt | hnone
      · exact absurd hlt hopen
      · rw [hnone, List.append_nil] at hall
        rw [hall] at h
        exact yields_pure h

theorem klinePages_exact
    (hserver : ∀ n request, ans n (.klines request) = history.page request) {current stop : ℤ}
    (hstop : current < stop) {fuel : ℕ} (hfuel : (stop - current).toNat < fuel) :
    Yields ans (klinePages collectCandle symbol stop fuel current []) s fun candles _ =>
      List.Forall₂ Kline.ShownAs (history.klines current stop) candles := by
  refine yields_klinePages (I := fun seen candles _ => List.Forall₂ Kline.ShownAs seen candles) hserver
    (fun _ _ _ h => h) (fun seen k candles s receivedAt _ h => ?_) (.inl hstop) hfuel
    (List.nil_append _) .nil
  exact yields_pure (List.rel_append h (.cons ⟨receivedAt, rfl⟩ .nil))

/-- Against a server that answers with the first klines of each request, every kline of the window
is yielded once, in order, and none besides. -/
theorem getKlines_exact (history : History)
    (hserver : ∀ n request, ans n (.klines request) = history.page request) (symbol : String)
    {startTime endTime : ℤ} (hlt : milliseconds startTime < milliseconds endTime) {fuel : ℕ}
    (hfuel : (milliseconds endTime - milliseconds startTime).toNat < fuel) :
    Yields ans (getKlines collectCandle symbol startTime endTime fuel []) s fun candles _ =>
      ∃ klines : List Kline, List.Forall₂ Kline.ShownAs klines candles ∧
        (klines.Pairwise fun j k => j.openTimeMs < k.openTimeMs) ∧
        ∀ k, k ∈ klines ↔ history.kline k.openTimeMs = some k ∧
          milliseconds startTime ≤ k.openTimeMs ∧ k.openTimeMs ≤ milliseconds endTime := by
  refine (klinePages_exact hserver hlt hfuel).mono fun candles _ hshown => ?_
  exact ⟨_, hshown, history.klines_sorted _ _, fun _ => History.mem_klines⟩

/-- One kline, of the second minute. -/
def secondMinute (t : ℤ) : Option Kline :=
  if t = 60000 then some ⟨60000, ⟨1, 1, 1, 1, 1⟩, none⟩ else none

theorem secondMinute_openTime (t : ℤ) (k : Kline) (h : secondMinute t = some k) :
    k.openTimeMs = t ∧ t % minuteMs = 0 := by
  unfold secondMinute at h
  split at h
  · rename_i ht
    cases h
    rw [ht]
    decide
  · cases h

theorem secondMinute_valid (t : ℤ) (k : Kline) (h : secondMinute t = some k) :
    checkKline k.values = .ok () := by
  unfold secondMinute at h
  split at h
  · cases h
    decide +kernel
  · cases h

/-- The window ends with the kline. -/
theorem getKlines_at_end : Yields
    (History.server ⟨secondMinute, secondMinute_openTime, secondMinute_valid⟩)
    (getKlines collectCandle "BTCUSDT" 1000 60000000 60000 []) { db := {} } fun candles _ =>
      ∃ klines : List Kline, List.Forall₂ Kline.ShownAs klines candles ∧
        (klines.Pairwise fun j k => j.openTimeMs < k.openTimeMs) ∧
        ∀ k, k ∈ klines ↔ secondMinute k.openTimeMs = some k ∧
          milliseconds 1000 ≤ k.openTimeMs ∧ k.openTimeMs ≤ milliseconds 60000000 :=
  getKlines_exact ⟨secondMinute, secondMinute_openTime, secondMinute_valid⟩ (fun _ _ => rfl) "BTCUSDT"
    (by decide) (by decide)

/-! ### Any server -/

/-- The request at the cursor, as the `p.2`-th question, is answered with a full page that the
element loop accepts. -/
def FullPage (ans : ℕ → (q : Question) → Answer q) (symbol : String) (stop : ℤ) (p : ℤ × ℕ)
    (elements : List (Option Kline)) : Prop :=
  ans p.2 (.klines ⟨symbol, p.1, stop, klinesLimit⟩) = KlinesResponse.klines elements ∧
    AllAccepted elements ∧ klinesLimit ≤ elements.length

/-- An iteration that continues, from a cursor and a number of questions to the next ones. -/
def NextPage (ans : ℕ → (q : Question) → Answer q) (symbol : String) (stop : ℤ) (p p' : ℤ × ℕ) :
    Prop :=
  p.1 < stop ∧ ∃ elements, FullPage ans symbol stop p elements ∧
    p' = (lastOpenTime elements + 1, p.2 + 1 + elements.length)

section
variable {stop current : ℤ} {fuel : ℕ}

theorem run_nextPage {p' : ℤ × ℕ} (h : NextPage ans symbol stop (current, s.asked) p') (fuel : ℕ)
    (got : List CandlePayload) : ∃ got' s', s'.asked = p'.2 ∧
      run ans (klinePages collectCandle symbol stop (fuel + 1) current got) s =
        run ans (klinePages collectCandle symbol stop fuel p'.1 got') s' := by
  obtain ⟨hopen, elements, ⟨hr, haccepted, hfull⟩, rfl⟩ := h
  obtain ⟨candles, s', hrun, -, hasked⟩ := @yields_accepted ans s.answered elements haccepted got
  refine ⟨candles, s', hasked, ?_⟩
  rw [run_page hopen hr, run_ok hrun, if_neg (not_lt.mpr hfull)]

theorem run_lastPage (h : ∀ p', ¬ NextPage ans symbol stop (current, s.asked) p') (fuel : ℕ)
    (got : List CandlePayload) :
    (run ans (klinePages collectCandle symbol stop (fuel + 1) current got) s).isSome := by
  by_cases hopen : current < stop
  · cases hr : (ans s.asked (.klines ⟨symbol, current, stop, klinesLimit⟩) : KlinesResponse) with
    | raised e =>
      rw [klinePages, if_pos hopen, run_ok (run_query _ s), hr]
      rfl
    | notList =>
      rw [klinePages, if_pos hopen, run_ok (run_query _ s), hr]
      rfl
    | klines elements =>
      rw [run_page hopen hr]
      by_cases haccepted : AllAccepted elements
      · obtain ⟨candles, s', hrun, -⟩ := @yields_accepted ans s.answered elements haccepted got
        rw [run_ok hrun]
        split
        · rfl
        · rename_i hfull
          exact absurd ⟨hopen, elements, ⟨hr, haccepted, not_lt.mp hfull⟩, rfl⟩ (h _)
      · obtain ⟨e, s', hrun⟩ := @run_rejected ans s.answered elements haccepted got
        rw [run_error hrun]
        rfl
  · rw [klinePages, if_neg hopen]
    rfl

/-- A cursor that moves forward reaches the end of the window. -/
theorem klinePages_ends
    (hforward : ∀ p p', Relation.ReflTransGen (NextPage ans symbol stop) (current, s.asked) p →
      NextPage ans symbol stop p p' → p.1 < p'.1)
    (hfuel : (stop - current).toNat < fuel) (got : List CandlePayload) :
    (run ans (klinePages collectCandle symbol stop fuel current got) s).isSome := by
  induction fuel generalizing current got s with
  | zero => omega
  | succ fuel ih =>
    by_cases hnext : ∃ p', NextPage ans symbol stop (current, s.asked) p'
    · obtain ⟨p', hp'⟩ := hnext
      have hlt := hforward _ p' .refl hp'
      have hopen := hp'.1
      obtain ⟨got', s', hasked, hrun⟩ := run_nextPage hp' fuel got
      rw [hrun]
      refine ih (fun p q hp hq => hforward p q ?_ hq) (by dsimp only at hlt hopen; omega) got'
      rw [hasked] at hp
      exact .head hp' hp
    · exact run_lastPage (fun p' hp' => hnext ⟨p', hp'⟩) fuel got

end

/-- The first thousand minutes, whatever is asked for. -/
def firstPage : List (Option Kline) :=
  (List.range 1000).map fun (i : ℕ) => some ⟨minuteMs * i, ⟨1, 1, 1, 1, 1⟩, none⟩

def repeating : ℕ → (q : Question) → Answer q
  | n, .now => (n : ℤ)
  | _, .fault => (none : Option Failure)
  | _, .ownershipLost => false
  | _, .klines _ => KlinesResponse.klines firstPage

end
end Quantive.Candles
