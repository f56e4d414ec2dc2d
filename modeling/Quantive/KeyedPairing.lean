import Mathlib.Data.List.Sort
import Mathlib.Order.Basic

/-!
# Pairing two streams key by key

The observed points wait in one queue for each key; an expected point takes the head of its
queue. Inside a key the `k`-th expected point meets the `k`-th observed one.
-/

namespace Quantive.KeyedPairing

variable {α κ : Type} [DecidableEq κ]

/-- `defaultdict(deque)`, the keys in the order of their first points. -/
abbrev Queues (κ α : Type) := List (κ × List α)

namespace Queues

def get (k : κ) : Queues κ α → List α
  | [] => []
  | (k', xs) :: rest => if k' = k then xs else get k rest

def append (k : κ) (x : α) : Queues κ α → Queues κ α
  | [] => [(k, [x])]
  | (k', xs) :: rest => if k' = k then (k', xs ++ [x]) :: rest else (k', xs) :: append k x rest

def popleft (k : κ) : Queues κ α → Queues κ α
  | [] => []
  | (k', xs) :: rest => if k' = k then (k', xs.drop 1) :: rest else (k', xs) :: popleft k rest

/-- The points that still wait. -/
def values (q : Queues κ α) : List α := q.flatMap Prod.snd

theorem get_append (k k' : κ) (x : α) (q : Queues κ α) :
    get k' (append k x q) = if k = k' then get k q ++ [x] else get k' q := by
  induction q with
  | nil => by_cases h : k = k' <;> simp [append, get, h]
  | cons b q ih =>
    obtain ⟨k₀, xs⟩ := b
    by_cases h₀ : k₀ = k
    · by_cases h : k = k' <;> simp [append, get, h₀, h]
    · by_cases h : k = k'
      · subst h
        simpa [append, get, h₀] using ih
      · by_cases h' : k₀ = k'
        · subst h'
          simp [append, get, h₀, h]
        · simp [append, get, h₀, h, h', ih]

theorem get_popleft (k k' : κ) (q : Queues κ α) :
    get k' (popleft k q) = if k = k' then (get k q).drop 1 else get k' q := by
  induction q with
  | nil => by_cases h : k = k' <;> simp [popleft, get]
  | cons b q ih =>
    obtain ⟨k₀, xs⟩ := b
    by_cases h₀ : k₀ = k
    · by_cases h : k = k' <;> simp [popleft, get, h₀, h]
    · by_cases h : k = k'
      · subst h
        simpa [popleft, get, h₀] using ih
      · by_cases h' : k₀ = k'
        · subst h'
          simp [popleft, get, h₀, h]
        · simp [popleft, get, h₀, h, h', ih]

/-- Every queue is under its own key and holds points of that key only. -/
structure Keyed (key : α → κ) (q : Queues κ α) : Prop where
  nodup : (q.map Prod.fst).Nodup
  own : ∀ b ∈ q, ∀ x ∈ b.2, key x = b.1

theorem map_fst_append (k : κ) (x : α) (q : Queues κ α) :
    (append k x q).map Prod.fst =
      if k ∈ q.map Prod.fst then q.map Prod.fst else q.map Prod.fst ++ [k] := by
  induction q with
  | nil => simp [append]
  | cons b q ih =>
    obtain ⟨k₀, xs⟩ := b
    by_cases h₀ : k₀ = k
    · simp [append, h₀]
    · have hne : ¬ k = k₀ := fun h => h₀ h.symm
      by_cases hk : k ∈ q.map Prod.fst
      · simp only [append, if_neg h₀, List.map_cons, ih, List.mem_cons, hne, hk,
          or_true, if_true]
      · simp only [append, if_neg h₀, List.map_cons, ih, List.mem_cons, hne, hk,
          or_self, if_false, List.cons_append]

theorem map_fst_popleft (k : κ) (q : Queues κ α) :
    (popleft k q).map Prod.fst = q.map Prod.fst := by
  induction q with
  | nil => rfl
  | cons b q ih =>
    by_cases h : b.1 = k
    · simp [popleft, h]
    · simp [popleft, h, ih]

theorem mem_append {k : κ} {x : α} {q : Queues κ α} {b : κ × List α} (h : b ∈ append k x q) :
    ∀ y ∈ b.2, (y = x ∧ b.1 = k) ∨ ∃ b' ∈ q, b'.1 = b.1 ∧ y ∈ b'.2 := by
  induction q with
  | nil =>
    intro y hy
    have hb : b = (k, [x]) := by simpa [append] using h
    subst hb
    exact Or.inl ⟨by simpa using hy, rfl⟩
  | cons b₀ q ih =>
    intro y hy
    by_cases h₀ : b₀.1 = k
    · simp only [append, if_pos h₀, List.mem_cons] at h
      rcases h with rfl | hb
      · rcases List.mem_append.mp hy with hy | hy
        · exact Or.inr ⟨b₀, List.mem_cons_self, rfl, hy⟩
        · exact Or.inl ⟨by simpa using hy, h₀⟩
      · exact Or.inr ⟨b, List.mem_cons_of_mem _ hb, rfl, hy⟩
    · simp only [append, if_neg h₀, List.mem_cons] at h
      rcases h with rfl | hb
      · exact Or.inr ⟨_, List.mem_cons_self, rfl, hy⟩
      · rcases ih hb y hy with hx | ⟨b', hb', hk, hy'⟩
        · exact Or.inl hx
        · exact Or.inr ⟨b', List.mem_cons_of_mem _ hb', hk, hy'⟩

theorem mem_popleft {k : κ} {q : Queues κ α} {b : κ × List α} (h : b ∈ popleft k q) :
    ∀ y ∈ b.2, ∃ b' ∈ q, b'.1 = b.1 ∧ y ∈ b'.2 := by
  induction q with
  | nil => simp [popleft] at h
  | cons b₀ q ih =>
    intro y hy
    by_cases h₀ : b₀.1 = k
    · simp only [popleft, if_pos h₀, List.mem_cons] at h
      rcases h with rfl | hb
      · exact ⟨b₀, List.mem_cons_self, rfl, List.mem_of_mem_drop hy⟩
      · exact ⟨b, List.mem_cons_of_mem _ hb, rfl, hy⟩
    · simp only [popleft, if_neg h₀, List.mem_cons] at h
      rcases h with rfl | hb
      · exact ⟨_, List.mem_cons_self, rfl, hy⟩
      · obtain ⟨b', hb', hk, hy'⟩ := ih hb y hy
        exact ⟨b', List.mem_cons_of_mem _ hb', hk, hy'⟩

theorem Keyed.append {key : α → κ} {q : Queues κ α} (h : Keyed key q) (x : α) :
    Keyed key (append (key x) x q) := by
  constructor
  · rw [map_fst_append]
    by_cases hk : key x ∈ q.map Prod.fst
    · simpa [hk] using h.nodup
    · rw [if_neg hk]
      refine h.nodup.append (List.nodup_singleton _) ?_
      simpa using hk
  · intro b hb y hy
    rcases mem_append hb y hy with ⟨rfl, hk⟩ | ⟨b', hb', hk, hy'⟩
    · exact hk.symm
    · exact (h.own b' hb' y hy').trans hk

theorem Keyed.popleft {key : α → κ} {q : Queues κ α} (h : Keyed key q) (k : κ) :
    Keyed key (popleft k q) := by
  constructor
  · rw [map_fst_popleft]
    exact h.nodup
  · intro b hb y hy
    obtain ⟨b', hb', hk, hy'⟩ := mem_popleft hb y hy
    exact (h.own b' hb' y hy').trans hk

theorem get_eq_nil {q : Queues κ α} {k : κ} (h : k ∉ q.map Prod.fst) :
    get k q = [] := by
  induction q with
  | nil => rfl
  | cons b q ih =>
    simp only [List.map_cons, List.mem_cons, not_or] at h
    have hne : ¬ b.1 = k := fun hb => h.1 hb.symm
    simp [get, hne, ih h.2]

/-- What waits under a key are the waiting points of that key. -/
theorem Keyed.filter_values {key : α → κ} {q : Queues κ α} (h : Keyed key q) (k : κ) :
    (values q).filter (fun x => key x = k) = get k q := by
  induction q with
  | nil => rfl
  | cons b q ih =>
    have hnodup := List.nodup_cons.mp h.nodup
    have hq : Keyed key q := ⟨hnodup.2, fun b' hb' => h.own b' (List.mem_cons_of_mem _ hb')⟩
    have hown := h.own b List.mem_cons_self
    have hsplit : (values (b :: q)).filter (fun x => key x = k) =
        b.2.filter (fun x => key x = k) ++ (values q).filter (fun x => key x = k) := by
      simp [values]
    rw [hsplit, ih hq]
    by_cases hk : b.1 = k
    · have hall : b.2.filter (fun x => key x = k) = b.2 := by
        rw [List.filter_eq_self]
        intro x hx
        simpa [hk] using hown x hx
      have hrest : get k q = [] := get_eq_nil (hk ▸ hnodup.1)
      simp [hall, hrest, get, hk]
    · have hnone : b.2.filter (fun x => key x = k) = [] := by
        rw [List.filter_eq_nil_iff]
        intro x hx hkx
        exact hk ((hown x hx).symm.trans (by simpa using hkx))
      simp [hnone, get, hk]

end Queues

variable (key : α → κ)

def queued (q : Queues κ α) (observed : List α) : Queues κ α :=
  observed.foldl (fun q x => q.append (key x) x) q

structure Matching (α : Type) where
  pairs : List (α × α)
  expectedOnly : List α
  observedOnly : List α

/-- The loop over the expected points, with what is left in the queues. -/
def matchPoints : List α → Queues κ α → Matching α
  | [], q => ⟨[], [], q.values⟩
  | x :: xs, q =>
    match q.get (key x) with
    | [] =>
      let m := matchPoints xs q
      { m with expectedOnly := x :: m.expectedOnly }
    | y :: _ =>
      let m := matchPoints xs (q.popleft (key x))
      { m with pairs := (x, y) :: m.pairs }

def pairUp (expected observed : List α) : Matching α :=
  matchPoints key expected (queued key [] observed)

variable {key}

theorem keyed_queued {q : Queues κ α} (h : q.Keyed key) (observed : List α) :
    (queued key q observed).Keyed key := by
  induction observed generalizing q with
  | nil => exact h
  | cons x xs ih => exact ih (h.append x)

theorem get_queued (q : Queues κ α) (observed : List α) (k : κ) :
    (queued key q observed).get k = q.get k ++ observed.filter (fun x => key x = k) := by
  induction observed generalizing q with
  | nil => simp [queued]
  | cons x xs ih =>
    have hstep : queued key q (x :: xs) = queued key (q.append (key x) x) xs := rfl
    rw [hstep, ih, Queues.get_append]
    by_cases h : key x = k
    · simp [h]
    · simp [h]

/-- What the loop makes of one key: its points are paired in order as long as both sides last. -/
structure Matched (key : α → κ) (m : Matching α) (expected observed : List α) (k : κ) : Prop where
  pairs : m.pairs.filter (fun p => key p.1 = k) = expected.zip observed
  expectedOnly : m.expectedOnly.filter (fun x => key x = k) = expected.drop observed.length
  observedOnly : m.observedOnly.filter (fun x => key x = k) = observed.drop expected.length

theorem matched_matchPoints {q : Queues κ α} (hq : q.Keyed key) (xs : List α) (k : κ) :
    Matched key (matchPoints key xs q) (xs.filter fun x => key x = k) (q.get k) k := by
  induction xs generalizing q with
  | nil =>
    refine ⟨?_, ?_, ?_⟩
    · simp [matchPoints]
    · simp [matchPoints]
    · simpa [matchPoints] using hq.filter_values k
  | cons x xs ih =>
    cases hget : q.get (key x) with
    | nil =>
      have hrun : matchPoints key (x :: xs) q =
          { matchPoints key xs q with expectedOnly := x :: (matchPoints key xs q).expectedOnly } := by
        simp only [matchPoints, hget]
      have hm := ih hq
      by_cases hk : key x = k
      · have hnil : q.get k = [] := hk ▸ hget
        rw [hnil] at hm ⊢
        refine ⟨?_, ?_, ?_⟩
        · simpa [hrun] using hm.pairs
        · simpa [hrun, hk] using hm.expectedOnly
        · simpa [hrun] using hm.observedOnly
      · refine ⟨?_, ?_, ?_⟩
        · simpa [hrun, hk] using hm.pairs
        · simpa [hrun, hk] using hm.expectedOnly
        · simpa [hrun, hk] using hm.observedOnly
    | cons y ys =>
      have hrun : matchPoints key (x :: xs) q =
          { matchPoints key xs (q.popleft (key x)) with
            pairs := (x, y) :: (matchPoints key xs (q.popleft (key x))).pairs } := by
        simp only [matchPoints, hget]
      have hm := ih (hq.popleft (key x))
      rw [Queues.get_popleft] at hm
      by_cases hk : key x = k
      · have hys : q.get k = y :: ys := hk ▸ hget
        rw [if_pos hk, hget, List.drop_succ_cons, List.drop_zero] at hm
        rw [hys]
        refine ⟨?_, ?_, ?_⟩
        · simpa [hrun, hk] using hm.pairs
        · simpa [hrun, hk] using hm.expectedOnly
        · simpa [hrun, hk] using hm.observedOnly
      · rw [if_neg hk] at hm
        refine ⟨?_, ?_, ?_⟩
        · simpa [hrun, hk] using hm.pairs
        · simpa [hrun, hk] using hm.expectedOnly
        · simpa [hrun, hk] using hm.observedOnly

/-- The specification of the pairing, key by key. -/
theorem matched_pairUp (key : α → κ) (expected observed : List α) (k : κ) :
    Matched key (pairUp key expected observed) (expected.filter fun x => key x = k)
      (observed.filter fun x => key x = k) k := by
  have hempty : Queues.Keyed key ([] : Queues κ α) := ⟨List.nodup_nil, fun b hb => by cases hb⟩
  have h := matched_matchPoints (keyed_queued hempty observed) expected k
  rw [get_queued] at h
  simpa [Queues.get, pairUp] using h

theorem pair_mem {expected observed : List α} {p : α × α}
    (h : p ∈ (pairUp key expected observed).pairs) :
    p.1 ∈ expected ∧ p.2 ∈ observed ∧ key p.2 = key p.1 := by
  have hm := (matched_pairUp key expected observed (key p.1)).pairs
  have hmem : p ∈ (pairUp key expected observed).pairs.filter (fun q => key q.1 = key p.1) := by
    simp [h]
  rw [hm] at hmem
  have hzip := List.of_mem_zip hmem
  simp only [List.mem_filter, decide_eq_true_eq] at hzip
  exact ⟨hzip.1.1, hzip.2.1, hzip.2.2⟩

theorem expectedOnly_mem {expected observed : List α} {x : α}
    (h : x ∈ (pairUp key expected observed).expectedOnly) : x ∈ expected := by
  have hm := (matched_pairUp key expected observed (key x)).expectedOnly
  have hmem : x ∈ (pairUp key expected observed).expectedOnly.filter (fun y => key y = key x) := by
    simp [h]
  rw [hm] at hmem
  exact List.mem_of_mem_filter (List.mem_of_mem_drop hmem)

theorem observedOnly_mem {expected observed : List α} {x : α}
    (h : x ∈ (pairUp key expected observed).observedOnly) : x ∈ observed := by
  have hm := (matched_pairUp key expected observed (key x)).observedOnly
  have hmem : x ∈ (pairUp key expected observed).observedOnly.filter (fun y => key y = key x) := by
    simp [h]
  rw [hm] at hmem
  exact List.mem_of_mem_filter (List.mem_of_mem_drop hmem)

/-- Lists that agree key by key agree. -/
theorem perm_of_filter (key : α → κ) {xs ys : List α}
    (h : ∀ k, (xs.filter fun x => key x = k).Perm (ys.filter fun x => key x = k)) :
    xs.Perm ys := by
  classical
  rw [List.perm_iff_count]
  intro a
  have hcount : ∀ l : List α, l.count a = (l.filter fun x => key x = key a).count a := by
    intro l
    rw [List.count_filter]
    simp
  rw [hcount xs, hcount ys]
  exact (h (key a)).count_eq a

/-! ### Missing points

`observed` is what is left of `expected` once `removed` is taken away. -/

section Removal

variable {τ : Type} [LinearOrder τ] {time : α → τ} {expected observed removed : List α}

/-- The times of a key tell its points apart. -/
def Distinct (key : α → κ) (time : α → τ) (xs : List α) : Prop :=
  xs.Pairwise fun x y => key x = key y → time x ≠ time y

/-- Every removed point is later than the points of its key that are left. -/
def Trailing (key : α → κ) (time : α → τ) (observed removed : List α) : Prop :=
  ∀ r ∈ removed, ∀ o ∈ observed, key r = key o → time o < time r

def InOrder (time : α → τ) (xs : List α) : Prop := xs.Pairwise fun x y => time x ≤ time y

omit [DecidableEq κ] [LinearOrder τ] in
theorem Distinct.perm {xs ys : List α} (h : Distinct key time xs) (hp : xs.Perm ys) :
    Distinct key time ys :=
  (hp.pairwise_iff fun hxy hk ht => hxy hk.symm ht.symm).mp h

omit [DecidableEq κ] [LinearOrder τ] in
theorem Distinct.eq {xs : List α} (h : Distinct key time xs) {x y : α} (hx : x ∈ xs)
    (hy : y ∈ xs) (hk : key x = key y) (ht : time x = time y) : x = y := by
  induction xs with
  | nil => cases hx
  | cons a xs ih =>
    have hc := List.pairwise_cons.mp h
    rcases List.mem_cons.mp hx with rfl | hx'
    · rcases List.mem_cons.mp hy with rfl | hy'
      · rfl
      · exact absurd ht (hc.1 y hy' hk)
    · rcases List.mem_cons.mp hy with rfl | hy'
      · exact absurd ht.symm (hc.1 x hx' hk.symm)
      · exact ih hc.2 hx' hy'

omit [DecidableEq κ] [LinearOrder τ] in
theorem Distinct.nodup {xs : List α} (h : Distinct key time xs) : xs.Nodup :=
  h.imp fun hxy heq => hxy (congrArg key heq) (congrArg time heq)

theorem key_of_mem_filter {xs : List α} {k : κ} {x : α} (h : x ∈ xs.filter fun x => key x = k) :
    key x = k := by
  simpa using (List.mem_filter.mp h).2

/-- When the removed points trail, the points that are left are a prefix of every key. -/
theorem Trailing.filter_eq (htrail : Trailing key time observed removed)
    (hdist : Distinct key time expected) (hperm : expected.Perm (observed ++ removed))
    (hexpected : InOrder time expected) (hobserved : InOrder time observed) (k : κ) :
    ∃ rest, rest.Perm (removed.filter fun x => key x = k) ∧
      (expected.filter fun x => key x = k) = (observed.filter fun x => key x = k) ++ rest := by
  let R := removed.filter fun x => key x = k
  have hRperm : (R.insertionSort fun x y => time x ≤ time y).Perm R := List.perm_insertionSort _ R
  have hRsorted : InOrder time (R.insertionSort fun x y => time x ≤ time y) := by
    have htotal : Std.Total fun x y : α => time x ≤ time y := ⟨fun x y => le_total _ _⟩
    have htrans : IsTrans α fun x y => time x ≤ time y := ⟨fun x y z => le_trans⟩
    exact List.pairwise_insertionSort _ R
  refine ⟨_, hRperm, ?_⟩
  have hto : (expected.filter fun x => key x = k).Perm
      ((observed.filter fun x => key x = k) ++ R.insertionSort fun x y => time x ≤ time y) := by
    have hf := hperm.filter (fun x => decide (key x = k))
    rw [List.filter_append] at hf
    exact hf.trans (hRperm.symm.append_left _)
  refine hto.eq_of_pairwise (fun x y hx hy hxy hyx => ?_)
    (hexpected.filter _) ?_
  · have hy' := hto.mem_iff.mpr hy
    have hk : key x = key y := (key_of_mem_filter hx).trans (key_of_mem_filter hy').symm
    exact hdist.eq (List.mem_of_mem_filter hx) (List.mem_of_mem_filter hy') hk
      (le_antisymm hxy hyx)
  · rw [List.pairwise_append]
    refine ⟨hobserved.filter _, hRsorted, fun o ho r hr => ?_⟩
    have hr' := hRperm.mem_iff.mp hr
    have hk : key r = key o := (key_of_mem_filter hr').trans (key_of_mem_filter ho).symm
    exact le_of_lt (htrail r (List.mem_of_mem_filter hr') o (List.mem_of_mem_filter ho) hk)

/-- Then each point that is left meets itself and the removed points stay alone. -/
theorem Trailing.pairUp (htrail : Trailing key time observed removed)
    (hdist : Distinct key time expected) (hperm : expected.Perm (observed ++ removed))
    (hexpected : InOrder time expected) (hobserved : InOrder time observed) :
    (∀ p ∈ (pairUp key expected observed).pairs, p.1 = p.2) ∧
      (pairUp key expected observed).expectedOnly.Perm removed ∧
      (pairUp key expected observed).observedOnly = [] := by
  have hprefix := htrail.filter_eq hdist hperm hexpected hobserved
  refine ⟨fun p hp => ?_, perm_of_filter key fun k => ?_, ?_⟩
  · obtain ⟨rest, -, heq⟩ := hprefix (key p.1)
    have hm := (matched_pairUp key expected observed (key p.1)).pairs
    have hmem : p ∈ (KeyedPairing.pairUp key expected observed).pairs.filter
        (fun q => key q.1 = key p.1) := by simp [hp]
    rw [hm, heq] at hmem
    have hzip : ∀ l rest : List α, ∀ q ∈ (l ++ rest).zip l, q.1 = q.2 := by
      intro l
      induction l with
      | nil => intro rest q hq; simp at hq
      | cons x xs ih =>
        intro rest q hq
        rcases List.mem_cons.mp hq with rfl | hq
        · rfl
        · exact ih rest q hq
    exact hzip _ _ p hmem
  · obtain ⟨rest, hrest, heq⟩ := hprefix k
    rw [(matched_pairUp key expected observed k).expectedOnly, heq, List.drop_left]
    exact hrest
  · rw [List.eq_nil_iff_forall_not_mem]
    intro x hx
    obtain ⟨rest, -, heq⟩ := hprefix (key x)
    have hm := (matched_pairUp key expected observed (key x)).observedOnly
    have hmem : x ∈ (KeyedPairing.pairUp key expected observed).observedOnly.filter
        (fun y => key y = key x) := by simp [hx]
    rw [hm, heq, List.drop_eq_nil_of_le (by simp)] at hmem
    cases hmem

/-- Conversely, points that trail are the only ones that can stay alone as they should. -/
theorem trailing_of_expectedOnly (hdist : Distinct key time expected)
    (hperm : expected.Perm (observed ++ removed)) (hexpected : InOrder time expected)
    (honly : ∀ x ∈ (pairUp key expected observed).expectedOnly, x ∈ removed) :
    Trailing key time observed removed := by
  intro r hr o ho hk
  have hall := hdist.perm hperm
  have hsplit := List.pairwise_append.mp hall
  have hne : time o ≠ time r := hsplit.2.2 o ho r hr hk.symm
  rcases lt_or_gt_of_ne hne with hlt | hlt
  · exact hlt
  exfalso
  let E := expected.filter fun x => key x = key o
  let O := observed.filter fun x => key x = key o
  let R := removed.filter fun x => key x = key o
  have hEperm : E.Perm (O ++ R) := by
    have hf := hperm.filter (fun x => decide (key x = key o))
    rwa [List.filter_append] at hf
  have hdrop := (matched_pairUp key expected observed (key o)).expectedOnly
  have hsubset : E.drop O.length ⊆ R := by
    intro x hx
    rw [← hdrop] at hx
    have hx' := List.mem_filter.mp hx
    exact List.mem_filter.mpr ⟨honly x hx'.1, hx'.2⟩
  have hlength : R.length ≤ (E.drop O.length).length := by
    have hlen := hEperm.length_eq
    simp only [List.length_append, List.length_drop] at hlen ⊢
    omega
  have hnodup : (E.drop O.length).Nodup := (hdist.nodup.filter _).drop
  have hDR : (E.drop O.length).Perm R :=
    (List.subperm_of_subset hnodup hsubset).perm_of_length_le hlength
  have hrD : r ∈ E.drop O.length :=
    hDR.mem_iff.mpr (List.mem_filter.mpr ⟨hr, by simpa using hk⟩)
  have hoE : o ∈ E := by
    have hoexpected := hperm.mem_iff.mpr (List.mem_append_left removed ho)
    exact List.mem_filter.mpr ⟨hoexpected, by simp⟩
  have hcut : E.take O.length ++ E.drop O.length = E := List.take_append_drop _ _
  -- a point behind `r` cannot stand in front of the removed ones
  have hoD : o ∈ E.drop O.length := by
    rw [← hcut] at hoE
    rcases List.mem_append.mp hoE with hfront | hback
    · have hpair : InOrder time (E.take O.length ++ E.drop O.length) := by
        rw [hcut]
        exact hexpected.filter _
      have hle := (List.pairwise_append.mp hpair).2.2 o hfront r hrD
      exact absurd hlt (not_lt.mpr hle)
    · exact hback
  have hoR : o ∈ removed := List.mem_of_mem_filter (hsubset hoD)
  exact hsplit.2.2 o ho o hoR rfl rfl

end Removal

end Quantive.KeyedPairing
