import Mathlib.Algebra.BigOperators.Group.List.Basic
import Mathlib.Algebra.Order.Field.Rat
import Mathlib.Data.Rat.Floor
import Mathlib.Tactic.Linarith
import Mathlib.Tactic.Positivity

/-!
# The global rate limiter

`connectors/rate_limiter.py`: a token bucket in Redis, and the calls of all workers in the order in
which Redis runs them. Times are seconds of the Redis clock; arithmetic is exact.
-/

namespace Quantive.Connectors

/-- The hash of the bucket key; the key is gone from `expiresAt` on. -/
structure Bucket where
  tokens : ℚ
  lastUpdate : ℚ
  expiresAt : ℚ

/-- How a script call ends for the worker. -/
inductive Reply where
  | answered
  /-- The script did not run. -/
  | unreachable
  /-- The script ran, and its reply was lost. -/
  | lost
  deriving DecidableEq

section
variable (capacity : ℤ) (rate : ℚ)

/-- The tokens that the script sees. -/
def available (bucket : Option Bucket) (now : ℚ) : ℚ :=
  match bucket with
  | none => min (capacity : ℚ) (capacity + max 0 (now - now) * rate)
  | some b => min (capacity : ℚ) (b.tokens + max 0 (now - b.lastUpdate) * rate)

/-- `EXPIRE`, on the millisecond clock of Redis. -/
def expiry (now : ℚ) : ℚ := ⌊now * 1000⌋ / 1000 + (⌈(capacity : ℚ) / rate⌉ + 1)

/-- `TOKEN_BUCKET_LUA`: the bucket after the script, and its reply. -/
def tokenBucket (now : ℚ) (requested : ℤ) (bucket : Option Bucket) : Option Bucket × Bool :=
  let tokens := available capacity rate bucket now
  if requested ≤ tokens then
    (some { tokens := tokens - requested, lastUpdate := now, expiresAt := expiry capacity rate now },
      true)
  else (bucket, false)

/-- `GlobalRateLimiter.acquire` -/
def acquire (reply : Reply) (now : ℚ) (weight : ℤ) (bucket : Option Bucket) :
    Option Bucket × Bool :=
  if weight ≤ 0 ∨ capacity < weight then (bucket, false)
  else
    match reply with
    | .answered => tokenBucket capacity rate now weight bucket
    | .unreachable => (bucket, false)
    | .lost => ((tokenBucket capacity rate now weight bucket).1, false)

end

/-- A call, and whether the key was found expired before it. -/
structure Call where
  now : ℚ
  weight : ℤ
  expired : Bool := false
  reply : Reply := .answered

def Call.found (call : Call) (bucket : Option Bucket) : Option Bucket :=
  if call.expired then none else bucket

section
variable (capacity : ℤ) (rate : ℚ)

def Call.result (call : Call) (bucket : Option Bucket) : Option Bucket × Bool :=
  acquire capacity rate call.reply call.now call.weight (call.found bucket)

/-- The bucket after some calls. -/
def bucketAfter : Option Bucket → List Call → Option Bucket
  | bucket, [] => bucket
  | bucket, call :: rest => bucketAfter (call.result capacity rate bucket).1 rest

/-- The weight that is admitted from `t` to `u`. -/
def admitted (t u : ℚ) : Option Bucket → List Call → ℤ
  | _, [] => 0
  | bucket, call :: rest =>
    (if (call.result capacity rate bucket).2 ∧ t ≤ call.now ∧ call.now ≤ u then call.weight else 0) +
      admitted t u (call.result capacity rate bucket).1 rest

/-- Calls that Redis can run: its clock does not go back, and a key expires when it is due. -/
def Runs (clock : ℚ) : Option Bucket → List Call → Prop
  | _, [] => True
  | bucket, call :: rest => clock ≤ call.now ∧
      (call.expired = true → ∀ b ∈ bucket, b.expiresAt ≤ call.now) ∧
      Runs call.now (call.result capacity rate bucket).1 rest

end

/-! ### The level of the bucket -/

/-- A bucket that the script wrote by `clock`. -/
structure Bucket.Written (capacity : ℤ) (rate clock : ℚ) (b : Bucket) : Prop where
  nonneg : 0 ≤ b.tokens
  past : b.lastUpdate ≤ clock
  full : b.lastUpdate + capacity / rate ≤ b.expiresAt

section
variable {capacity : ℤ} {rate : ℚ} {bucket : Option Bucket} {clock now t u : ℚ}

theorem available_none : available capacity rate none now = capacity := by
  rw [available, sub_self, max_self, zero_mul, add_zero, min_self]

theorem available_le : available capacity rate bucket now ≤ capacity := by
  cases bucket <;> exact min_le_left _ _

theorem available_nonneg (hcapacity : 0 < capacity) (hrate : 0 < rate)
    (h : ∀ b ∈ bucket, b.Written capacity rate clock) : 0 ≤ available capacity rate bucket now := by
  have hcapacity' : (0 : ℚ) < capacity := by exact_mod_cast hcapacity
  cases bucket with
  | none =>
    rw [available_none]
    exact hcapacity'.le
  | some b =>
    have htokens := (h b rfl).nonneg
    have hrefill : 0 ≤ max 0 (now - b.lastUpdate) * rate :=
      mul_nonneg (le_max_left _ _) hrate.le
    exact le_min hcapacity'.le (by linarith)

/-- The refill is at most `rate` a second. -/
theorem available_later (hrate : 0 < rate) (h : ∀ b ∈ bucket, b.Written capacity rate t)
    (hle : t ≤ u) : available capacity rate bucket u ≤
      available capacity rate bucket t + rate * (u - t) := by
  have hrefill : 0 ≤ rate * (u - t) := mul_nonneg hrate.le (by linarith)
  cases bucket with
  | none =>
    rw [available_none, available_none]
    linarith
  | some b =>
    have hpast := (h b rfl).past
    simp only [available]
    rw [max_eq_right (by linarith : 0 ≤ u - b.lastUpdate),
      max_eq_right (by linarith : 0 ≤ t - b.lastUpdate), ← min_add_add_right]
    refine min_le_min (by linarith) ?_
    have hsplit : (u - b.lastUpdate) * rate = (t - b.lastUpdate) * rate + rate * (u - t) := by ring
    linarith

theorem available_mono (hrate : 0 < rate) (hle : t ≤ u) :
    available capacity rate bucket t ≤ available capacity rate bucket u := by
  cases bucket with
  | none => rw [available_none, available_none]
  | some b =>
    refine min_le_min le_rfl ?_
    have hmax : max 0 (t - b.lastUpdate) ≤ max 0 (u - b.lastUpdate) :=
      max_le_max le_rfl (by linarith)
    have hmul := mul_le_mul_of_nonneg_right hmax hrate.le
    linarith

/-- A key that is due has a full bucket. -/
theorem available_due (hrate : 0 < rate) (h : ∀ b ∈ bucket, b.Written capacity rate clock)
    (hdue : ∀ b ∈ bucket, b.expiresAt ≤ now) :
    available capacity rate bucket now = capacity := by
  cases bucket with
  | none => exact available_none
  | some b =>
    have hwritten := h b rfl
    have hfull := hwritten.full
    have hdue := hdue b rfl
    have hnonneg := hwritten.nonneg
    have helapsed : (capacity : ℚ) / rate ≤ max 0 (now - b.lastUpdate) :=
      (by linarith : (capacity : ℚ) / rate ≤ now - b.lastUpdate).trans (le_max_right _ _)
    have hrefill : (capacity : ℚ) ≤ max 0 (now - b.lastUpdate) * rate := by
      rwa [div_le_iff₀ hrate] at helapsed
    exact min_eq_left (by linarith)

theorem expiry_full : now + capacity / rate ≤ expiry capacity rate now := by
  have hfloor := Int.lt_floor_add_one (now * 1000)
  have hceil := Int.le_ceil ((capacity : ℚ) / rate)
  unfold expiry
  linarith

/-! ### One call -/

/-- What a call does to the bucket that it finds. -/
theorem acquire_cases (reply : Reply) (weight : ℤ) :
    (acquire capacity rate reply now weight bucket = (bucket, false)) ∨
    0 < weight ∧ weight ≤ available capacity rate bucket now ∧
      (acquire capacity rate reply now weight bucket).1 =
        some ⟨available capacity rate bucket now - weight, now, expiry capacity rate now⟩ ∧
      ((acquire capacity rate reply now weight bucket).2 = true ∨ reply = .lost) := by
  unfold acquire
  split
  · exact .inl rfl
  · rename_i hweight
    have hpos : 0 < weight := by
      by_contra hle
      exact hweight (.inl (by omega))
    by_cases hgranted : (weight : ℚ) ≤ available capacity rate bucket now
    · have hscript : tokenBucket capacity rate now weight bucket =
          (some ⟨available capacity rate bucket now - weight, now, expiry capacity rate now⟩, true) :=
        if_pos hgranted
      cases reply with
      | answered => exact .inr ⟨hpos, hgranted, by rw [hscript], .inl (by rw [hscript])⟩
      | unreachable => exact .inl rfl
      | lost => exact .inr ⟨hpos, hgranted, by rw [hscript], .inr rfl⟩
    · have hscript : tokenBucket capacity rate now weight bucket = (bucket, false) := if_neg hgranted
      left
      cases reply with
      | answered => exact hscript
      | unreachable => rfl
      | lost => rw [hscript]

theorem written_found {call : Call} (h : ∀ b ∈ bucket, b.Written capacity rate clock) :
    ∀ b ∈ call.found bucket, b.Written capacity rate clock := by
  intro b hb
  unfold Call.found at hb
  split at hb
  · cases hb
  · exact h b hb

theorem available_found (hrate : 0 < rate) {call : Call}
    (h : ∀ b ∈ bucket, b.Written capacity rate clock)
    (hdue : call.expired = true → ∀ b ∈ bucket, b.expiresAt ≤ call.now) :
    available capacity rate (call.found bucket) call.now =
      available capacity rate bucket call.now := by
  unfold Call.found
  split
  · rename_i hexpired
    rw [available_none, available_due hrate h (hdue hexpired)]
  · rfl

theorem Call.result_cases (capacity : ℤ) (rate : ℚ) (call : Call) (bucket : Option Bucket) :
    (call.result capacity rate bucket = (call.found bucket, false)) ∨
    0 < call.weight ∧ call.weight ≤ available capacity rate (call.found bucket) call.now ∧
      (call.result capacity rate bucket).1 =
        some ⟨available capacity rate (call.found bucket) call.now - call.weight, call.now,
          expiry capacity rate call.now⟩ ∧
      ((call.result capacity rate bucket).2 = true ∨ call.reply = .lost) :=
  acquire_cases call.reply call.weight

/-- After a call the bucket is one that the script wrote. -/
theorem written_result {call : Call} (hclock : clock ≤ call.now)
    (h : ∀ b ∈ bucket, b.Written capacity rate clock) :
    ∀ b ∈ (call.result capacity rate bucket).1, b.Written capacity rate call.now := by
  have hfound : ∀ b ∈ call.found bucket, b.Written capacity rate clock := written_found h
  intro b hb
  rcases call.result_cases capacity rate bucket with hsame | ⟨_, hle, hnext, _⟩
  · rw [hsame] at hb
    have hwritten := hfound b hb
    exact ⟨hwritten.nonneg, hwritten.past.trans hclock, hwritten.full⟩
  · rw [hnext] at hb
    cases hb
    exact ⟨by simpa using hle, le_rfl, expiry_full⟩

/-- An admitted call takes its weight from the bucket. -/
theorem available_result (hrate : 0 < rate) {call : Call}
    (h : ∀ b ∈ bucket, b.Written capacity rate clock)
    (hdue : call.expired = true → ∀ b ∈ bucket, b.expiresAt ≤ call.now) :
    available capacity rate (call.result capacity rate bucket).1 call.now +
        (if (call.result capacity rate bucket).2 then (call.weight : ℚ) else 0) ≤
      available capacity rate bucket call.now := by
  have hfound := available_found hrate h hdue
  rcases call.result_cases capacity rate bucket with hsame | ⟨hpos, hle, hnext, _⟩
  · rw [hsame]
    simp only [Bool.false_eq_true, if_false, add_zero]
    exact hfound.le
  · have hcapacity : available capacity rate (call.found bucket) call.now ≤ capacity := available_le
    have hpos' : (0 : ℚ) < call.weight := by exact_mod_cast hpos
    have hlevel : available capacity rate (call.result capacity rate bucket).1 call.now =
        available capacity rate (call.found bucket) call.now - call.weight := by
      rw [hnext]
      show min (capacity : ℚ) (_ - _ + max 0 (call.now - call.now) * rate) = _
      rw [sub_self, max_self, zero_mul, add_zero]
      exact min_eq_right (by linarith)
    rw [hlevel, hfound]
    split <;> linarith

/-! ### Runs -/

/-- From one moment on, the calls can take what the bucket has and what is refilled. -/
theorem admitted_le (hcapacity : 0 < capacity) (hrate : 0 < rate) {calls : List Call}
    (hruns : Runs capacity rate clock bucket calls) (hle : t ≤ clock)
    (h : ∀ b ∈ bucket, b.Written capacity rate clock) (hu : clock ≤ u) :
    (admitted capacity rate t u bucket calls : ℚ) ≤
      available capacity rate bucket clock + rate * (u - clock) := by
  induction calls generalizing clock bucket with
  | nil =>
    have havailable : 0 ≤ available capacity rate bucket clock :=
      available_nonneg hcapacity hrate h
    have hrefill : 0 ≤ rate * (u - clock) := mul_nonneg hrate.le (by linarith)
    simp only [admitted, Int.cast_zero]
    linarith
  | cons call rest ih =>
    obtain ⟨hclock, hdue, hrest⟩ := hruns
    have hnext := written_result hclock h
    have hlevel := available_result hrate h hdue
    have hrefilled := available_later hrate h hclock
    by_cases hin : call.now ≤ u
    · have hlater := ih hrest (hle.trans hclock) hnext hin
      simp only [admitted, Int.cast_add, Int.cast_ite, Int.cast_zero, hle.trans hclock, hin,
        and_true]
      have hsplit : rate * (u - clock) = rate * (call.now - clock) + rate * (u - call.now) := by ring
      linarith
    · have hnone : ∀ (calls : List Call) (now : ℚ) (bucket : Option Bucket), u < now →
          Runs capacity rate now bucket calls → admitted capacity rate t u bucket calls = 0 := by
        intro calls
        induction calls with
        | nil => intro _ _ _ _; rfl
        | cons call rest ih =>
          intro now bucket hnow hruns
          have hafter : u < call.now := hnow.trans_le hruns.1
          have hout : ¬ ((call.result capacity rate bucket).2 = true ∧ t ≤ call.now ∧
              call.now ≤ u) := fun h => absurd h.2.2 (not_le.mpr hafter)
          rw [admitted, if_neg hout, ih call.now _ hafter hruns.2.2, add_zero]
      have hafter : u < call.now := not_le.mp hin
      have hout : ¬ ((call.result capacity rate bucket).2 = true ∧ t ≤ call.now ∧ call.now ≤ u) :=
        fun h => hin h.2.2
      rw [admitted, if_neg hout, hnone rest call.now _ hafter hrest]
      have havailable : 0 ≤ available capacity rate bucket clock :=
        available_nonneg hcapacity hrate h
      have hrefill : 0 ≤ rate * (u - clock) := mul_nonneg hrate.le (by linarith)
      simp only [add_zero, Int.cast_zero]
      linarith

/-- In every interval. -/
theorem admitted_window (hcapacity : 0 < capacity) (hrate : 0 < rate) {calls : List Call}
    (hruns : Runs capacity rate clock bucket calls)
    (h : ∀ b ∈ bucket, b.Written capacity rate clock) (htu : t ≤ u) :
    (admitted capacity rate t u bucket calls : ℚ) ≤ capacity + rate * (u - t) := by
  have hcapacity' : (0 : ℚ) < capacity := by exact_mod_cast hcapacity
  have hrefill : 0 ≤ rate * (u - t) := mul_nonneg hrate.le (by linarith)
  induction calls generalizing clock bucket with
  | nil =>
    simp only [admitted, Int.cast_zero]
    linarith
  | cons call rest ih =>
    obtain ⟨hclock, hdue, hrest⟩ := hruns
    by_cases hbefore : call.now < t
    · have hout : ¬ ((call.result capacity rate bucket).2 = true ∧ t ≤ call.now ∧ call.now ≤ u) :=
        fun h => absurd h.2.1 (not_le.mpr hbefore)
      rw [admitted, if_neg hout, zero_add]
      exact ih hrest (written_result hclock h)
    · have hstart : t ≤ call.now := not_lt.mp hbefore
      by_cases hin : call.now ≤ u
      · -- the bucket at the first call of the interval holds at most the capacity
        have hnow : ∀ b ∈ bucket, b.Written capacity rate call.now := fun b hb =>
          ⟨(h b hb).nonneg, (h b hb).past.trans hclock, (h b hb).full⟩
        have hruns : Runs capacity rate call.now bucket (call :: rest) := ⟨le_rfl, hdue, hrest⟩
        have hbound := admitted_le hcapacity hrate hruns hstart hnow hin
        have hfull : available capacity rate bucket call.now ≤ capacity := available_le
        have hlonger : rate * (u - call.now) ≤ rate * (u - t) :=
          mul_le_mul_of_nonneg_left (by linarith) hrate.le
        linarith
      · have hout : ¬ ((call.result capacity rate bucket).2 = true ∧ t ≤ call.now ∧
            call.now ≤ u) := fun h => hin h.2.2
        rw [admitted, if_neg hout, zero_add]
        exact ih hrest (written_result hclock h)

/-- A call that the limiter did not admit leaves at least what it found, unless its reply was lost. -/
theorem denied_keeps {call : Call}
    (hdenied : (call.result capacity rate bucket).2 = false) (hreply : call.reply ≠ .lost) :
    available capacity rate bucket now ≤
      available capacity rate (call.result capacity rate bucket).1 now := by
  have hsame : (call.result capacity rate bucket).1 = call.found bucket := by
    rcases call.result_cases capacity rate bucket with hsame | ⟨_, hle, _, hreplied⟩
    · rw [hsame]
    · rcases hreplied with hgranted | hlost
      · rw [hdenied] at hgranted
        cases hgranted
      · exact (hreply hlost).elim
  rw [hsame]
  unfold Call.found
  split
  · rename_i hexpired
    rw [available_none]
    exact available_le
  · exact le_rfl

end

/-- A later call with some weight is admitted. -/
def Admits (capacity : ℤ) (rate now : ℚ) (weight : ℤ) (bucket : Option Bucket) : Prop :=
  (acquire capacity rate .answered now weight bucket).2 = true

theorem admits_iff {capacity : ℤ} {rate now : ℚ} {weight : ℤ} {bucket : Option Bucket} :
    Admits capacity rate now weight bucket ↔
      0 < weight ∧ weight ≤ capacity ∧ weight ≤ available capacity rate bucket now := by
  unfold Admits acquire tokenBucket
  by_cases hweight : weight ≤ 0 ∨ capacity < weight
  · rw [if_pos hweight]
    constructor
    · intro h
      cases h
    · rintro ⟨hpos, hle, _⟩
      omega
  · rw [if_neg hweight]
    by_cases hgranted : (weight : ℚ) ≤ available capacity rate bucket now
    · simp only [if_pos hgranted]
      exact iff_of_true trivial ⟨by omega, by omega, hgranted⟩
    · simp only [if_neg hgranted]
      exact iff_of_false Bool.false_ne_true fun h => hgranted h.2.2

/-- In every run of calls from an empty database, the weight admitted in an interval is at most the
capacity and what is refilled; and a call that is denied takes nothing from a later call. -/
theorem rate_limit {capacity : ℤ} {rate : ℚ} (hcapacity : 0 < capacity) (hrate : 0 < rate)
    {clock : ℚ} {calls : List Call} (hruns : Runs capacity rate clock none calls) :
    (∀ t length, 0 ≤ length →
      (admitted capacity rate t (t + length) none calls : ℚ) ≤ capacity + rate * length) ∧
    ∀ before call after, calls = before ++ call :: after →
      (call.result capacity rate (bucketAfter capacity rate none before)).2 = false →
      call.reply ≠ .lost → ∀ now weight, call.now ≤ now →
      Admits capacity rate now weight (bucketAfter capacity rate none before) →
      Admits capacity rate now weight
        (call.result capacity rate (bucketAfter capacity rate none before)).1 := by
  have hempty : ∀ b ∈ (none : Option Bucket), b.Written capacity rate clock := fun b hb => by
    cases hb
  constructor
  · intro t length hlength
    have hwindow := admitted_window hcapacity hrate hruns hempty
      (by linarith : t ≤ t + length)
    rwa [add_sub_cancel_left] at hwindow
  · intro before call after _ hdenied hreply now weight _ hadmits
    rw [admits_iff] at hadmits ⊢
    exact ⟨hadmits.1, hadmits.2.1, hadmits.2.2.trans (denied_keeps hdenied hreply)⟩

theorem rate_limit_two_calls :
    (admitted 1000 16 0 (0 + 5) none [{ now := 1, weight := 600 }, { now := 2, weight := 0 }] : ℚ) ≤
      (1000 : ℤ) + 16 * 5 := by
  have hruns : Runs 1000 16 0 none [{ now := 1, weight := 600 }, { now := 2, weight := 0 }] :=
    ⟨by norm_num, fun h => (by cases h), by norm_num, fun h => (by cases h), trivial⟩
  exact (rate_limit (by norm_num) (by norm_num) hruns).1 0 5 (by norm_num)

end Quantive.Connectors
