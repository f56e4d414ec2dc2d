import Quantive.Candles.GapRepair

/-!
# Requests to the exchange

`BinanceClient._request` of `connectors/binance.py`: the attempts, which failures are tried again,
and what `classify_error` makes of the exception that escapes.
-/

namespace Quantive.Candles

/-! ### `int` of a header -/

/-- The code points of the decimal digits zero, Unicode 15.0; each starts a block of ten. -/
def decimalZeros : List ℕ :=
  [0x30, 0x660, 0x6f0, 0x7c0, 0x966, 0x9e6, 0xa66, 0xae6, 0xb66, 0xbe6, 0xc66, 0xce6, 0xd66, 0xde6,
    0xe50, 0xed0, 0xf20, 0x1040, 0x1090, 0x17e0, 0x1810, 0x1946, 0x19d0, 0x1a80, 0x1a90, 0x1b50,
    0x1bb0, 0x1c40, 0x1c50, 0xa620, 0xa8d0, 0xa900, 0xa9d0, 0xa9f0, 0xaa50, 0xabf0, 0xff10, 0x104a0,
    0x10d30, 0x11066, 0x110f0, 0x11136, 0x111d0, 0x112f0, 0x11450, 0x114d0, 0x11650, 0x116c0,
    0x11730, 0x118e0, 0x11950, 0x11c50, 0x11d50, 0x11da0, 0x11f50, 0x16a60, 0x16ac0, 0x16b50,
    0x1d7ce, 0x1d7d8, 0x1d7e2, 0x1d7ec, 0x1d7f6, 0x1e140, 0x1e2f0, 0x1e4f0, 0x1e950, 0x1fbf0]

def isDecimal (c : Char) : Bool := decimalZeros.any fun z => z ≤ c.toNat && c.toNat < z + 10

/-- The spaces that `int` skips: of the ASCII separators only tab to carriage return and blank. -/
def isIntSpace (c : Char) : Bool :=
  let n := c.toNat
  (9 ≤ n && n ≤ 13) || n = 32 || (128 ≤ n && isSpace c)

/-- Digits with single underscores between them; `fresh`: the last character was none. -/
def digitGroups (fresh : Bool) : List Char → Bool
  | [] => !fresh
  | c :: cs => if c = '_' then !fresh && digitGroups true cs else isDecimal c && digitGroups false cs

/-- `int(text)` raises no `ValueError`; 4300 is the limit on the digits of a string. -/
def parsesInt (text : List Char) : Bool :=
  let stripped := ((text.dropWhile isIntSpace).reverse.dropWhile isIntSpace).reverse
  let digits := if stripped.head?.any fun c => c = '+' || c = '-' then stripped.tail else stripped
  digitGroups true digits && (digits.filter fun c => c ≠ '_').length ≤ 4300

/-! ### Attempts -/

/-- `json` is what `response.json()` gives or raises. -/
structure HttpResponse (α : Type) where
  statusCode : ℕ
  retryAfter : Option String := none
  text : String := ""
  json : Except Failure α

/-- What one pass of the loop meets; `raised` is an exception that no handler catches. -/
inductive Attempt (α : Type) where
  | noTokens
  | requestError
  | raised (e : Failure)
  | response (r : HttpResponse α)

/-- `retry_after_sec` can be computed. -/
def HttpResponse.readable {α : Type} (r : HttpResponse α) : Bool :=
  r.retryAfter.all fun header => header = "" || parsesInt header.toList

/-- The text of the `APIError`. -/
def apiErrorText (statusCode : ℕ) (text : String) : String :=
  "API Error " ++ toString statusCode ++ ": " ++ text

/-- A failure that the loop tries again, or the end of the call. -/
inductive Handled (α : Type) where
  | retry (e : Failure)
  | done (r : Except Failure α)

/-- The body of the `try` block with its handlers, `binance.py:47-87`. -/
def handleAttempt {α : Type} : Attempt α → Handled α
  | .noTokens => .retry .rateLimit
  | .requestError => .retry .network
  | .raised e => .done (.error e)
  | .response r =>
    if r.statusCode = 200 then .done r.json
    else if !r.readable then .done (.error (.valueError "invalid literal for int() with base 10"))
    else if r.statusCode = 429 then .retry .rateLimit
    else if r.statusCode = 418 then .retry .temporaryBan
    else .done (.error (.api (apiErrorText r.statusCode r.text)))

/-- What escapes from the last attempt. -/
def Handled.settle {α : Type} : Handled α → Except Failure α
  | .retry e => .error e
  | .done r => r

/-- The loop, with the retries that are left: the number of its last attempt and the outcome. -/
def requestFrom {α : Type} (attempts : ℕ → Attempt α) : ℕ → ℕ → ℕ × Except Failure α
  | 0, n => (n, (handleAttempt (attempts n)).settle)
  | left + 1, n =>
    match handleAttempt (attempts n) with
    | .retry _ => requestFrom attempts left (n + 1)
    | .done r => (n, r)

/-- `_request` under `BINANCE_MAX_RETRIES`. -/
def request {α : Type} (maxRetries : ℕ) (attempts : ℕ → Attempt α) : ℕ × Except Failure α :=
  requestFrom attempts maxRetries 0

section
variable {α : Type}

theorem requestFrom_last (attempts : ℕ → Attempt α) (left n : ℕ) :
    (requestFrom attempts left n).2 =
      (handleAttempt (attempts (requestFrom attempts left n).1)).settle := by
  induction left generalizing n with
  | zero => rfl
  | succ left ih =>
    unfold requestFrom
    cases h : handleAttempt (attempts n) with
    | retry e => exact ih (n + 1)
    | done r =>
      show r = (handleAttempt (attempts n)).settle
      rw [h]
      rfl

/-- The call makes at most `maxRetries + 1` attempts. -/
theorem request_le (maxRetries : ℕ) (attempts : ℕ → Attempt α) :
    (request maxRetries attempts).1 ≤ maxRetries := by
  have hfrom : ∀ left n, (requestFrom attempts left n).1 ≤ n + left := by
    intro left
    induction left with
    | zero => exact fun n => le_refl n
    | succ left ih =>
      intro n
      unfold requestFrom
      cases handleAttempt (attempts n) with
      | retry e =>
        have := ih (n + 1)
        dsimp only
        omega
      | done r =>
        dsimp only
        omega
  have := hfrom maxRetries 0
  unfold request
  omega

end

/-! ### Markers -/

/-- The markers that make an `APIError` permanent. -/
def permanentMarkers : List String :=
  ["401", "403", "auth", "api key", "400", "invalid symbol", "illegal"]

def marked (text : List Char) : Bool :=
  permanentMarkers.any fun m => contains (lower text) m.toList

theorem classifyError_api (text : String) :
    (classifyError (.api text)).2 = !marked text.toList := by
  have hmarked : marked text.toList =
      ((["401", "403", "auth", "api key"] : List String).any
          (fun m => contains (lower text.toList) m.toList) ||
        (["400", "invalid symbol", "illegal"] : List String).any
          (fun m => contains (lower text.toList) m.toList)) := by
    simp only [marked, permanentMarkers, List.any_cons, List.any_nil, Bool.or_false, Bool.or_assoc]
  rw [hmarked, classifyError]
  dsimp only
  split
  · rename_i hauth
    rw [hauth]
    rfl
  · rename_i hauth
    rw [Bool.eq_false_iff.mpr hauth]
    split
    · rename_i hpermanent
      rw [hpermanent]
      rfl
    · rename_i hpermanent
      rw [Bool.eq_false_iff.mpr hpermanent]
      rfl

theorem contains_cons (c : Char) (text marker : List Char) :
    contains (c :: text) marker = (marker.isPrefixOf (c :: text) || contains text marker) := rfl

/-- No marker begins in `start`, and no end of `start` begins a marker. -/
def Apart (start marker : List Char) : Bool :=
  start.tails.all fun t => t.isEmpty || !(marker.isPrefixOf t || t.isPrefixOf marker)

theorem apart_cons {c : Char} {start marker : List Char} :
    Apart (c :: start) marker ↔
      (¬ marker <+: c :: start ∧ ¬ c :: start <+: marker) ∧ Apart start marker := by
  simp only [Apart, List.tails, List.all_cons, List.isEmpty_cons, Bool.false_or, Bool.and_eq_true,
    Bool.not_eq_true', ← Bool.not_eq_true, Bool.or_eq_true, not_or, List.isPrefixOf_iff_prefix]

theorem contains_append {start marker : List Char} (h : Apart start marker) (text : List Char) :
    contains (start ++ text) marker = contains text marker := by
  induction start with
  | nil => rfl
  | cons c start ih =>
    obtain ⟨⟨hmarker, hstart⟩, hrest⟩ := apart_cons.mp h
    have hprefix : marker.isPrefixOf (c :: (start ++ text)) = false := by
      rw [Bool.eq_false_iff]
      intro hp
      have hp' : marker <+: c :: start ++ text := List.isPrefixOf_iff_prefix.mp hp
      exact (List.prefix_or_prefix_of_prefix hp' (List.prefix_append _ _)).elim hmarker hstart
    rw [List.cons_append, contains_cons, hprefix, Bool.false_or]
    exact ih hrest

theorem lower_append (s t : List Char) : lower (s ++ t) = lower s ++ lower t := List.flatMap_append

/-- The start of the text of a server error has no marker and begins none. -/
theorem serverError_apart : ∀ statusCode ∈ List.range' 500 100, ∀ m ∈ permanentMarkers,
    Apart (lower (apiErrorText statusCode "").toList) m.toList := by
  decide +kernel

theorem marked_apiErrorText {statusCode : ℕ} (h : 500 ≤ statusCode ∧ statusCode ≤ 599)
    (text : String) : marked (apiErrorText statusCode text).toList = marked text.toList := by
  have hstart : (apiErrorText statusCode text).toList =
      (apiErrorText statusCode "").toList ++ text.toList := by
    simp [apiErrorText]
  have hmem : statusCode ∈ List.range' 500 100 := by
    rw [List.mem_range'_1]
    omega
  rw [marked, marked, hstart, lower_append, Bool.eq_iff_iff, List.any_eq_true, List.any_eq_true]
  have hany : ∀ m ∈ permanentMarkers,
      contains (lower (apiErrorText statusCode "").toList ++ lower text.toList) m.toList =
        contains (lower text.toList) m.toList := fun m hm =>
    contains_append (serverError_apart statusCode hmem m hm) _
  constructor
  · rintro ⟨m, hm, h⟩
    exact ⟨m, hm, (hany m hm).symm.trans h⟩
  · rintro ⟨m, hm, h⟩
    exact ⟨m, hm, (hany m hm).trans h⟩

/-! ### Transient conditions -/

section
variable {α : Type}

/-- A rate limit, a ban or a server error. -/
def HttpResponse.Transient (r : HttpResponse α) : Prop :=
  r.statusCode = 429 ∨ r.statusCode = 418 ∨ (500 ≤ r.statusCode ∧ r.statusCode ≤ 599)

/-- The response ends in an exception after which the job may be tried again. -/
def Retryable (outcome : Except Failure α) : Prop :=
  ∃ e, outcome = .error e ∧ (classifyError e).2 = true

/-- The exception that escapes on a transient response is retryable exactly when the Retry-After
header can be read and, for a server error, the body has no marker of a permanent failure. -/
theorem transient_retryable_iff (maxRetries : ℕ) (attempts : ℕ → Attempt α) (r : HttpResponse α)
    (hlast : attempts (request maxRetries attempts).1 = .response r) (h : r.Transient) :
    Retryable (request maxRetries attempts).2 ↔
      r.readable ∧ (500 ≤ r.statusCode → ¬ marked r.text.toList) := by
  have hsettle : (request maxRetries attempts).2 = (handleAttempt (.response r)).settle := by
    rw [← hlast]
    exact requestFrom_last attempts maxRetries 0
  have hok : r.statusCode ≠ 200 := by
    unfold HttpResponse.Transient at h
    omega
  rw [hsettle, handleAttempt, if_neg hok]
  cases hreadable : r.readable with
  | false =>
    constructor
    · rintro ⟨e, he, hretry⟩
      obtain rfl : Failure.valueError _ = e := Except.error.inj he
      cases hretry
    · exact fun hr => by cases hr.1
  | true =>
    rcases h with h429 | h418 | hserver
    · rw [if_neg (by simp), if_pos h429]
      exact ⟨fun _ => ⟨rfl, fun hle => by omega⟩, fun _ => ⟨.rateLimit, rfl, rfl⟩⟩
    · rw [if_neg (by simp), if_neg (by omega), if_pos h418]
      exact ⟨fun _ => ⟨rfl, fun hle => by omega⟩, fun _ => ⟨.temporaryBan, rfl, rfl⟩⟩
    · rw [if_neg (by simp), if_neg (by omega), if_neg (by omega)]
      have hclass := classifyError_api (apiErrorText r.statusCode r.text)
      rw [marked_apiErrorText hserver] at hclass
      constructor
      · rintro ⟨e, he, hretry⟩
        obtain rfl : Failure.api _ = e := Except.error.inj he
        rw [hclass] at hretry
        exact ⟨rfl, fun _ hmarked => by simp [hmarked] at hretry⟩
      · intro hr
        refine ⟨_, rfl, ?_⟩
        rw [hclass]
        simpa using hr.2 hserver.1

/-- A call of one attempt. -/
def onlyAttempt (r : HttpResponse ℕ) : ℕ → Attempt ℕ := fun _ => .response r

theorem unavailable_retryable :
    Retryable (request 0 (onlyAttempt
      { statusCode := 503, text := "Service Unavailable", json := .ok 0 })).2 := by
  refine (transient_retryable_iff 0 _ _ rfl (Or.inr (Or.inr (by decide)))).mpr ⟨rfl, fun _ => ?_⟩
  decide +kernel

/-- A rate limit whose Retry-After header is a date. -/
def datedRateLimit : HttpResponse ℕ :=
  { statusCode := 429, retryAfter := some "Wed, 21 Oct 2015 07:28:00 GMT", json := .ok 0 }

theorem dated_rateLimit_not_retryable :
    ¬ ∀ (maxRetries : ℕ) (attempts : ℕ → Attempt ℕ) (r : HttpResponse ℕ),
      attempts (request maxRetries attempts).1 = .response r → r.Transient →
        Retryable (request maxRetries attempts).2 := by
  intro hall
  obtain ⟨e, he, hretry⟩ := hall 3 (onlyAttempt datedRateLimit) datedRateLimit rfl (Or.inl rfl)
  have hdate : (request 3 (onlyAttempt datedRateLimit)).2 =
      .error (.valueError "invalid literal for int() with base 10") := by
    decide +kernel
  obtain rfl : Failure.valueError _ = e := Except.error.inj (hdate.symm.trans he)
  cases hretry

end

/-- A retryable failure leaves a job pending as long as its budget lasts. -/
theorem failed_pending {error : Failure} (h : (classifyError error).2 = true) (now : ℤ)
    {job : GapRepairJob} (hbudget : job.retryCount < job.maxRetries) :
    (job.failed error now).status = .pending := by
  unfold GapRepairJob.failed
  simp only [h, Bool.true_and]
  have hle : job.retryCount + 1 ≤ job.maxRetries := hbudget
  rw [if_pos (decide_eq_true hle)]

/-- A failure that is not retryable fails the job whatever is left of its budget. -/
theorem failed_failed {error : Failure} (h : (classifyError error).2 = false) (now : ℤ)
    (job : GapRepairJob) : (job.failed error now).status = .failed := by
  unfold GapRepairJob.failed
  simp only [h, Bool.false_and]
  rw [if_neg Bool.false_ne_true]

end Quantive.Candles
