import Quantive.GreedyPlacement
import Quantive.Sha256
import Quantive.Strategies.Contracts

/-!
# Shard assignment

`ws_sharding/assignment.py`. A symbol goes to the shard of its hash, and to the first free shard of
its own fallback order once that one is full.
-/

namespace Quantive.WsSharding
open Strategies (CaseMapping strip)
open Sha256 (sha256 utf8)

inductive ShardingError where
  | value (message : String)
  /-- `ShardCapacityError` -/
  | capacity (message : String)
  deriving DecidableEq, Repr

/-- The settings that the functions default to. -/
structure ShardSettings where
  wsNumShards : ℤ := 8
  binanceWsMaxStreamsPerConnection : ℤ := 1024

section
variable (U : CaseMapping)

def normalizeSymbol (symbol : String) : Except ShardingError String :=
  let clean := U.upper (strip symbol)
  if clean = "" then .error (.value "Symbol cannot be empty or blank") else .ok clean

/-- The first eight bytes of the digest, modulo the shard count. -/
def hashShard (clean : String) (numShards : ℕ) : ℕ := sha256 (utf8 clean) / 2 ^ 192 % numShards

def getShardForSymbol (symbol : String) (numShards : ℤ) : Except ShardingError ℕ :=
  if numShards ≤ 0 then
    .error (.value ("num_shards must be a positive integer, got " ++ toString numShards))
  else (normalizeSymbol U symbol).map fun clean => hashShard clean numShards.toNat

/-- The alternatives of a symbol, by the digest of `symbol:shard`. -/
def alternatives (symbol : String) (numShards home : ℕ) : List ℕ :=
  ((List.range numShards).filter fun shard => shard ≠ home).insertionSort fun s t =>
    sha256 (utf8 (symbol ++ ":" ++ toString s)) ≤ sha256 (utf8 (symbol ++ ":" ++ toString t))

def fallbackShards (symbol : String) (numShards : ℤ) : Except ShardingError (List ℕ) :=
  (getShardForSymbol U symbol numShards).map fun home =>
    home :: alternatives symbol numShards.toNat home

def normalizeAll : List String → Except ShardingError (List String)
  | [] => .ok []
  | symbol :: rest => do
    let clean ← normalizeSymbol U symbol
    let others ← normalizeAll rest
    pure (clean :: others)

/-- `sorted({…})` -/
def sortedSet (cleans : List String) : List String := cleans.dedup.insertionSort (· ≤ ·)

/-- The loop over the normalized symbols. -/
def placeSymbols (numShards : ℤ) (capacity : ℕ) (buckets : ℕ → List String) :
    List String → Except ShardingError (ℕ → List String)
  | [] => .ok buckets
  | clean :: rest => do
    let shards ← fallbackShards U clean numShards
    match shards.find? fun shard => (buckets shard).length < capacity with
    | some shard => placeSymbols numShards capacity (GreedyPlacement.add buckets shard clean) rest
    | none => .error (.capacity "No shard capacity remains for stream assignment")

def capacityMessage (streams required : ℕ) (capacity numShards : ℤ) : String :=
  toString streams ++ " streams require at least " ++ toString required ++ " shards at " ++
    toString capacity ++ " streams per shard; only " ++ toString numShards ++ " configured"

/-- `max_streams_per_shard or settings.…`: zero falls to the setting. -/
def capacityOr (S : ShardSettings) : Option ℤ → ℤ
  | none => S.binanceWsMaxStreamsPerConnection
  | some c => if c = 0 then S.binanceWsMaxStreamsPerConnection else c

/-- `assign_symbols_to_shards`, `assignment.py:102-144`; the shards in the order of their ids. -/
def assignSymbolsToShards (S : ShardSettings) (symbols : List String) (numShards : Option ℤ)
    (maxStreamsPerShard : Option ℤ) : Except ShardingError (List (List String)) := do
  let numShards := numShards.getD S.wsNumShards
  if numShards ≤ 0 then
    .error (.value ("num_shards must be a positive integer, got " ++ toString numShards))
  else
    let capacity := capacityOr S maxStreamsPerShard
    if capacity ≤ 0 then .error (.value "max_streams_per_shard must be positive")
    else
      let cleans ← normalizeAll U symbols
      let normalizedSymbols := sortedSet cleans
      let required := (normalizedSymbols.length + capacity.toNat - 1) / capacity.toNat
      if numShards < required then
        .error (.capacity (capacityMessage normalizedSymbols.length required capacity numShards))
      else
        let buckets ← placeSymbols U numShards capacity.toNat (fun _ => []) normalizedSymbols
        pure ((List.range numShards.toNat).map fun shard =>
          (buckets shard).insertionSort (· ≤ ·))

/-- `get_symbols_for_shard`, `assignment.py:147-179`. -/
def getSymbolsForShard (S : ShardSettings) (symbols : List String) (shardId : ℤ)
    (numShards : Option ℤ) (maxStreamsPerShard : Option ℤ) : Except ShardingError (List String) :=
  let count := numShards.getD S.wsNumShards
  if shardId < 0 ∨ count ≤ shardId then
    .error (.value ("shard_id " ++ toString shardId ++ " is out of valid range [0, " ++
      toString (count - 1) ++ "]"))
  else (assignSymbolsToShards U S symbols (some count) maxStreamsPerShard).map fun assignment =>
    assignment.getD shardId.toNat []

end

/-! ### Normalized symbols -/

section
variable {U : CaseMapping}

theorem normalizeSymbol_normal {symbol clean : String} (h : normalizeSymbol U symbol = .ok clean) :
    normalizeSymbol U clean = .ok clean := by
  simp only [normalizeSymbol] at h
  split_ifs at h with hblank
  cases h
  have hnormal : U.upper (strip (U.upper (strip symbol))) = U.upper (strip symbol) := by
    rw [U.strip_upper, U.upper_upper]
  simp only [normalizeSymbol, hnormal]
  rw [if_neg hblank]

/-- `normalize_symbol` accepts a symbol that is not blank. -/
def Blank (U : CaseMapping) (symbol : String) : Prop := U.upper (strip symbol) = ""

instance (symbol : String) : Decidable (Blank U symbol) := inferInstanceAs (Decidable (_ = _))

def cleanOf (U : CaseMapping) (symbol : String) : String := U.upper (strip symbol)

theorem normalizeSymbol_of_not_blank {symbol : String} (h : ¬ Blank U symbol) :
    normalizeSymbol U symbol = .ok (cleanOf U symbol) := if_neg h

theorem normalizeAll_of_not_blank {symbols : List String} (h : ∀ s ∈ symbols, ¬ Blank U s) :
    normalizeAll U symbols = .ok (symbols.map (cleanOf U)) := by
  induction symbols with
  | nil => rfl
  | cons symbol rest ih =>
    obtain ⟨hs, hrest⟩ := List.forall_mem_cons.mp h
    rw [normalizeAll, normalizeSymbol_of_not_blank hs, ih hrest]
    rfl

theorem normalizeAll_of_blank {symbols : List String} {symbol : String} (hmem : symbol ∈ symbols)
    (h : Blank U symbol) :
    normalizeAll U symbols = .error (.value "Symbol cannot be empty or blank") := by
  induction symbols with
  | nil => cases hmem
  | cons s rest ih =>
    by_cases hs : Blank U s
    · have herror : normalizeSymbol U s = .error (.value "Symbol cannot be empty or blank") :=
        if_pos hs
      rw [normalizeAll, herror]
      rfl
    · rcases List.mem_cons.mp hmem with rfl | hrest
      · exact (hs h).elim
      · rw [normalizeAll, normalizeSymbol_of_not_blank hs, ih hrest]
        rfl

/-! ### Orders -/

theorem mem_alternatives {symbol : String} {numShards home shard : ℕ} :
    shard ∈ alternatives symbol numShards home ↔ shard < numShards ∧ shard ≠ home := by
  rw [alternatives, List.mem_insertionSort, List.mem_filter, List.mem_range, decide_eq_true_eq]

/-- Every shard is in the order of a symbol once. -/
theorem fallback_perm (symbol : String) {numShards home : ℕ} (h : home < numShards) :
    (home :: alternatives symbol numShards home).Perm (List.range numShards) := by
  have hnodup : (alternatives symbol numShards home).Nodup :=
    (List.perm_insertionSort _ _).nodup_iff.mpr (List.nodup_range.filter _)
  have hhome : home ∉ alternatives symbol numShards home := fun hmem =>
    (mem_alternatives.mp hmem).2 rfl
  rw [List.perm_ext_iff_of_nodup (List.nodup_cons.mpr ⟨hhome, hnodup⟩) List.nodup_range]
  intro shard
  rw [List.mem_cons, mem_alternatives, List.mem_range]
  omega

/-- The order in which a normalized symbol tries the shards. -/
def orderOf (numShards : ℕ) (clean : String) : List ℕ :=
  hashShard clean numShards :: alternatives clean numShards (hashShard clean numShards)

theorem orderOf_perm {numShards : ℕ} (hpos : 0 < numShards) (clean : String) :
    (orderOf numShards clean).Perm (List.range numShards) :=
  fallback_perm clean (Nat.mod_lt _ hpos)

theorem fallbackShards_eq {numShards : ℕ} (hpos : 0 < numShards) {clean : String}
    (h : normalizeSymbol U clean = .ok clean) :
    fallbackShards U clean numShards = .ok (orderOf numShards clean) := by
  have hcount : ¬ (numShards : ℤ) ≤ 0 := by omega
  rw [fallbackShards, getShardForSymbol, if_neg hcount, h]
  rfl

/-- The loop is the greedy placement. -/
theorem placeSymbols_eq {numShards capacity : ℕ} (hpos : 0 < numShards) {cleans : List String}
    (h : ∀ clean ∈ cleans, normalizeSymbol U clean = .ok clean) (buckets : ℕ → List String) :
    placeSymbols U numShards capacity buckets cleans =
      match GreedyPlacement.placeAll capacity (orderOf numShards) buckets cleans with
      | some buckets' => .ok buckets'
      | none => .error (.capacity "No shard capacity remains for stream assignment") := by
  induction cleans generalizing buckets with
  | nil => rfl
  | cons clean rest ih =>
    obtain ⟨hclean, hrest⟩ := List.forall_mem_cons.mp h
    rw [placeSymbols, fallbackShards_eq hpos hclean]
    show (match (orderOf numShards clean).find? fun shard => (buckets shard).length < capacity with
      | some shard => _
      | none => _) = _
    rw [GreedyPlacement.placeAll, GreedyPlacement.place]
    cases (orderOf numShards clean).find? fun shard => (buckets shard).length < capacity with
    | none => rfl
    | some shard => exact ih hrest _

end

/-! ### Sorted sets -/

section
variable {U : CaseMapping} {cleans cleans' : List String}

theorem mem_sortedSet {clean : String} : clean ∈ sortedSet cleans ↔ clean ∈ cleans := by
  rw [sortedSet, List.mem_insertionSort, List.mem_dedup]

theorem sortedSet_nodup (cleans : List String) : (sortedSet cleans).Nodup :=
  (List.perm_insertionSort _ _).nodup_iff.mpr (List.nodup_dedup _)

theorem length_sortedSet (cleans : List String) :
    (sortedSet cleans).length = cleans.toFinset.card := by
  rw [sortedSet, List.length_insertionSort, List.card_toFinset]

/-- The sorted set depends on the set alone. -/
theorem sortedSet_congr (h : ∀ clean, clean ∈ cleans' ↔ clean ∈ cleans) :
    sortedSet cleans' = sortedSet cleans := by
  have hperm : (sortedSet cleans').Perm (sortedSet cleans) := by
    rw [List.perm_ext_iff_of_nodup (sortedSet_nodup _) (sortedSet_nodup _)]
    intro clean
    rw [mem_sortedSet, mem_sortedSet, h]
  exact hperm.eq_of_pairwise (fun _ _ _ _ hle hle' => le_antisymm hle hle')
    (List.pairwise_insertionSort _ _) (List.pairwise_insertionSort _ _)

end

/-! ### The partition -/

/-- What the shards hold: each normalized symbol once, and no shard more than it can. -/
structure IsPartition (numShards capacity : ℕ) (cleans : List String)
    (assignment : List (List String)) : Prop where
  shards : assignment.length = numShards
  bounded : ∀ shard ∈ assignment, shard.length ≤ capacity
  sorted : ∀ shard ∈ assignment, shard.Pairwise (· ≤ ·)
  once : assignment.flatten.Nodup
  all : ∀ clean, clean ∈ assignment.flatten ↔ clean ∈ cleans

section
variable {U : CaseMapping} {S : ShardSettings} {symbols : List String} {n c : ℕ}

/-- The buckets of a set of normalized symbols. -/
def bucketsOf (n c : ℕ) (cleans : List String) : Option (ℕ → List String) :=
  GreedyPlacement.placeAll c (orderOf n) (fun _ => []) (sortedSet cleans)

theorem contents_empty (n : ℕ) :
    GreedyPlacement.contents (List.range n) (fun _ => ([] : List String)) = [] := by
  rw [GreedyPlacement.contents, List.flatMap_eq_nil_iff]
  exact fun _ _ => rfl

theorem bucketsOf_isSome (hn : 0 < n) {cleans : List String} (hfits : cleans.toFinset.card ≤ n * c) :
    (bucketsOf n c cleans).isSome = true := by
  refine GreedyPlacement.placeAll_isSome List.nodup_range
    (fun clean _ => orderOf_perm hn clean) ?_
  rw [contents_empty, List.length_nil, Nat.zero_add, List.length_range, length_sortedSet]
  exact hfits

theorem bucketsOf_contents (hn : 0 < n) {cleans : List String} {buckets : ℕ → List String}
    (h : bucketsOf n c cleans = some buckets) :
    (GreedyPlacement.contents (List.range n) buckets).Perm (sortedSet cleans) := by
  have hperm := GreedyPlacement.contents_placeAll List.nodup_range
    (fun clean _ shard hshard => (orderOf_perm hn clean).subset hshard) h
  rwa [contents_empty, List.nil_append] at hperm

theorem bucketsOf_bounded {cleans : List String} {buckets : ℕ → List String}
    (h : bucketsOf n c cleans = some buckets) (shard : ℕ) : (buckets shard).length ≤ c :=
  GreedyPlacement.placeAll_bounded (fun _ => Nat.zero_le _) h shard

/-- The shards of a result. -/
def shardsOf (n : ℕ) (buckets : ℕ → List String) : List (List String) :=
  (List.range n).map fun shard => (buckets shard).insertionSort (· ≤ ·)

theorem mem_shardsOf {buckets : ℕ → List String} {shard : ℕ} {clean : String} :
    clean ∈ (shardsOf n buckets).getD shard [] ↔ shard < n ∧ clean ∈ buckets shard := by
  by_cases hshard : shard < n
  · have hget : (shardsOf n buckets).getD shard [] = (buckets shard).insertionSort (· ≤ ·) := by
      simp [shardsOf, List.getD, hshard]
    rw [hget, List.mem_insertionSort, and_iff_right hshard]
  · have hget : (shardsOf n buckets).getD shard [] = [] := by
      simp [shardsOf, List.getD, hshard]
    rw [hget]
    exact ⟨fun h => (List.not_mem_nil h).elim, fun h => (hshard h.1).elim⟩

theorem shardsOf_partition (hn : 0 < n) {cleans : List String} {buckets : ℕ → List String}
    (h : bucketsOf n c cleans = some buckets) : IsPartition n c cleans (shardsOf n buckets) := by
  have hflatten : (shardsOf n buckets).flatten.Perm (sortedSet cleans) := by
    refine List.Perm.trans ?_ (bucketsOf_contents hn h)
    rw [shardsOf, GreedyPlacement.contents, List.flatMap_def]
    refine List.Perm.flatten_congr ?_
    rw [List.forall₂_map_left_iff, List.forall₂_map_right_iff, List.forall₂_same]
    exact fun shard _ => List.perm_insertionSort _ _
  constructor
  · rw [shardsOf, List.length_map, List.length_range]
  · intro shard hshard
    obtain ⟨k, _, rfl⟩ := List.mem_map.mp hshard
    rw [List.length_insertionSort]
    exact bucketsOf_bounded h k
  · intro shard hshard
    obtain ⟨k, _, rfl⟩ := List.mem_map.mp hshard
    exact List.pairwise_insertionSort _ _
  · exact hflatten.nodup_iff.mpr (sortedSet_nodup cleans)
  · intro clean
    rw [hflatten.mem_iff, mem_sortedSet]

/-- The capacity check is exact. -/
theorem required_iff (hc : 0 < c) (count : ℕ) : n < (count + c - 1) / c ↔ n * c < count := by
  rw [Nat.lt_iff_add_one_le, Nat.le_div_iff_mul_le hc, Nat.add_mul, Nat.one_mul]
  omega

theorem cleanOf_normal {symbol : String} (h : ¬ Blank U symbol) :
    normalizeSymbol U (cleanOf U symbol) = .ok (cleanOf U symbol) :=
  normalizeSymbol_normal (normalizeSymbol_of_not_blank h)

/-- The result on symbols that are not blank. -/
theorem assignSymbolsToShards_eq (hn : 0 < n) (hc : 0 < c) (h : ∀ s ∈ symbols, ¬ Blank U s) :
    assignSymbolsToShards U S symbols (some n) (some c) =
      if (symbols.map (cleanOf U)).toFinset.card ≤ n * c then
        match bucketsOf n c (symbols.map (cleanOf U)) with
        | some buckets => .ok (shardsOf n buckets)
        | none => .error (.capacity "No shard capacity remains for stream assignment")
      else .error (.capacity (capacityMessage (symbols.map (cleanOf U)).toFinset.card
        (((symbols.map (cleanOf U)).toFinset.card + c - 1) / c) c n)) := by
  have hshards : ¬ (n : ℤ) ≤ 0 := by omega
  have hcapacity : capacityOr S (some (c : ℤ)) = c := if_neg (by omega)
  have hpositive : ¬ (c : ℤ) ≤ 0 := by omega
  have hnormal : ∀ clean ∈ sortedSet (symbols.map (cleanOf U)),
      normalizeSymbol U clean = .ok clean := by
    intro clean hclean
    rw [mem_sortedSet] at hclean
    obtain ⟨symbol, hsymbol, rfl⟩ := List.mem_map.mp hclean
    exact cleanOf_normal (h symbol hsymbol)
  simp only [assignSymbolsToShards, Option.getD_some, hcapacity, if_neg hshards, if_neg hpositive,
    normalizeAll_of_not_blank h, bind, Except.bind, Int.toNat_natCast, length_sortedSet,
    placeSymbols_eq hn hnormal, Nat.cast_lt, required_iff hc]
  by_cases hfits : (symbols.map (cleanOf U)).toFinset.card ≤ n * c
  · rw [if_pos hfits, if_neg (by omega)]
    unfold bucketsOf
    cases GreedyPlacement.placeAll c (orderOf n) (fun _ => []) (sortedSet (symbols.map (cleanOf U)))
    all_goals rfl
  · rw [if_neg hfits, if_pos (by omega)]

/-- A blank symbol is refused. -/
theorem assignSymbolsToShards_blank (hn : 0 < n) (hc : 0 < c) {symbol : String}
    (hmem : symbol ∈ symbols) (h : Blank U symbol) :
    assignSymbolsToShards U S symbols (some n) (some c) =
      .error (.value "Symbol cannot be empty or blank") := by
  have hshards : ¬ (n : ℤ) ≤ 0 := by omega
  have hcapacity : capacityOr S (some (c : ℤ)) = c := if_neg (by omega)
  have hpositive : ¬ (c : ℤ) ≤ 0 := by omega
  simp only [assignSymbolsToShards, Option.getD_some, hcapacity, if_neg hshards, if_neg hpositive,
    normalizeAll_of_blank hmem h, bind, Except.bind]

theorem not_blank_iff : (∀ s ∈ symbols, ¬ Blank U s) ↔ "" ∉ symbols.map (cleanOf U) := by
  rw [List.mem_map]
  exact ⟨fun h ⟨s, hs, hblank⟩ => h s hs hblank, fun h s hs hblank => h ⟨s, hs, hblank⟩⟩

/-- For each list of symbols: a blank one is refused, too many are refused, and all others are
partitioned, by their set alone. -/
theorem assignSymbolsToShards_partition (U : CaseMapping) (S : ShardSettings)
    (symbols : List String) {n c : ℕ} (hn : 0 < n) (hc : 0 < c) :
    ((∃ s ∈ symbols, Blank U s) → assignSymbolsToShards U S symbols (some n) (some c) =
      .error (.value "Symbol cannot be empty or blank")) ∧
    ((∀ s ∈ symbols, ¬ Blank U s) → (symbols.map (cleanOf U)).toFinset.card ≤ n * c →
      ∃ assignment, assignSymbolsToShards U S symbols (some n) (some c) = .ok assignment ∧
        IsPartition n c (symbols.map (cleanOf U)) assignment ∧
        (∀ symbols' : List String,
          (∀ clean, clean ∈ symbols'.map (cleanOf U) ↔ clean ∈ symbols.map (cleanOf U)) →
          assignSymbolsToShards U S symbols' (some n) (some c) = .ok assignment) ∧
        ∀ shard : ℕ, shard < n →
          getSymbolsForShard U S symbols shard (some n) (some c) = .ok (assignment.getD shard [])) ∧
    ((∀ s ∈ symbols, ¬ Blank U s) → n * c < (symbols.map (cleanOf U)).toFinset.card →
      assignSymbolsToShards U S symbols (some n) (some c) =
        .error (.capacity (capacityMessage (symbols.map (cleanOf U)).toFinset.card
          (((symbols.map (cleanOf U)).toFinset.card + c - 1) / c) c n))) := by
  refine ⟨?_, ?_, ?_⟩
  · rintro ⟨symbol, hmem, hblank⟩
    exact assignSymbolsToShards_blank hn hc hmem hblank
  · intro hsymbols hfits
    obtain ⟨buckets, hbuckets⟩ := Option.isSome_iff_exists.mp (bucketsOf_isSome hn hfits)
    have hassign : ∀ symbols' : List String,
        (∀ clean, clean ∈ symbols'.map (cleanOf U) ↔ clean ∈ symbols.map (cleanOf U)) →
        assignSymbolsToShards U S symbols' (some n) (some c) = .ok (shardsOf n buckets) := by
      intro symbols' hsame
      have hsymbols' : ∀ s ∈ symbols', ¬ Blank U s := by
        rw [not_blank_iff, hsame, ← not_blank_iff]
        exact hsymbols
      have hset : (symbols'.map (cleanOf U)).toFinset = (symbols.map (cleanOf U)).toFinset := by
        ext clean
        rw [List.mem_toFinset, List.mem_toFinset, hsame]
      have hbuckets' : bucketsOf n c (symbols'.map (cleanOf U)) = some buckets := by
        rw [bucketsOf, sortedSet_congr hsame]
        exact hbuckets
      rw [assignSymbolsToShards_eq hn hc hsymbols', hset, if_pos hfits, hbuckets']
    have hself := hassign symbols fun _ => Iff.rfl
    refine ⟨_, hself, shardsOf_partition hn hbuckets, hassign, fun shard hshard => ?_⟩
    have hrange : ¬ ((shard : ℤ) < 0 ∨ (n : ℤ) ≤ shard) := by omega
    simp only [getSymbolsForShard, Option.getD_some, if_neg hrange, hself, Except.map,
      Int.toNat_natCast]
  · intro hsymbols hfull
    rw [assignSymbolsToShards_eq hn hc hsymbols, if_neg (by omega)]

end

theorem assignSymbolsToShards_partition_btc :
    ∃ assignment, assignSymbolsToShards Strategies.asciiCases {} ["BTCUSDT", " btcusdt"]
        (some (2 : ℕ)) (some (1 : ℕ)) = .ok assignment ∧
      IsPartition 2 1 (["BTCUSDT", " btcusdt"].map (cleanOf Strategies.asciiCases)) assignment := by
  have h := assignSymbolsToShards_partition Strategies.asciiCases {} ["BTCUSDT", " btcusdt"]
    Nat.two_pos Nat.one_pos
  obtain ⟨assignment, hassign, hpartition, _⟩ := h.2.1 (by decide +kernel) (by decide +kernel)
  exact ⟨assignment, hassign, hpartition⟩

section
variable {U : CaseMapping} {S : ShardSettings} {symbols : List String} {n c : ℕ}

/-! ### Growth -/

/-- While no shard is the home of more symbols than it can hold, all of them are at home. -/
theorem bucketsOf_home {cleans : List String}
    (h : ∀ shard, (sortedSet cleans).countP (fun clean => hashShard clean n = shard) ≤ c) :
    bucketsOf n c cleans =
      some fun shard => (sortedSet cleans).filter fun clean => hashShard clean n = shard := by
  have horder : ∀ clean ∈ sortedSet cleans, ∃ rest, orderOf n clean = hashShard clean n :: rest :=
    fun clean _ => ⟨_, rfl⟩
  have hroom : ∀ shard, ([] : List String).length +
      (sortedSet cleans).countP (fun clean => hashShard clean n = shard) ≤ c := by
    intro shard
    rw [List.length_nil, Nat.zero_add]
    exact h shard
  rw [bucketsOf, GreedyPlacement.placeAll_home horder hroom]
  simp only [List.nil_append]

/-- What an accepted list of symbols is assigned. -/
theorem assigned_cases (hn : 0 < n) (hc : 0 < c) {assignment : List (List String)}
    (h : assignSymbolsToShards U S symbols (some n) (some c) = .ok assignment) :
    (∀ s ∈ symbols, ¬ Blank U s) ∧ ∃ buckets,
      bucketsOf n c (symbols.map (cleanOf U)) = some buckets ∧ assignment = shardsOf n buckets := by
  by_cases hsymbols : ∀ s ∈ symbols, ¬ Blank U s
  · rw [assignSymbolsToShards_eq hn hc hsymbols] at h
    split_ifs at h
    cases hbuckets : bucketsOf n c (symbols.map (cleanOf U)) with
    | none =>
      rw [hbuckets] at h
      cases h
    | some buckets =>
      rw [hbuckets] at h
      cases h
      exact ⟨hsymbols, buckets, rfl, rfl⟩
  · push Not at hsymbols
    obtain ⟨symbol, hmem, hblank⟩ := hsymbols
    rw [assignSymbolsToShards_blank hn hc hmem hblank] at h
    cases h

/-- The symbols of a later snapshot keep the shards that they had in every earlier one exactly when
no shard is the home of more symbols than it can hold. -/
theorem assignSymbolsToShards_stable_iff (U : CaseMapping) (S : ShardSettings)
    {symbols : List String} {n c : ℕ} (hn : 0 < n) (hc : 0 < c) {assignment : List (List String)}
    (h : assignSymbolsToShards U S symbols (some n) (some c) = .ok assignment) :
    (∀ (earlier : List String) (assigned : List (List String)),
        earlier.map (cleanOf U) ⊆ symbols.map (cleanOf U) →
        assignSymbolsToShards U S earlier (some n) (some c) = .ok assigned →
        ∀ shard clean, clean ∈ assigned.getD shard [] → clean ∈ assignment.getD shard []) ↔
      ∀ shard < n, (symbols.map (cleanOf U)).dedup.countP (fun clean => hashShard clean n = shard) ≤ c := by
  obtain ⟨hsymbols, buckets, hbuckets, rfl⟩ := assigned_cases hn hc h
  have hcount : ∀ (cleans : List String) (shard : ℕ),
      (sortedSet cleans).countP (fun clean => hashShard clean n = shard) =
        cleans.dedup.countP (fun clean => hashShard clean n = shard) :=
    fun cleans shard => (List.perm_insertionSort _ _).countP_eq _
  constructor
  · intro hstable shard hshard
    by_contra hover
    -- a symbol that is not at home
    have hmissing : ∃ clean ∈ symbols.map (cleanOf U), hashShard clean n = shard ∧
        clean ∉ buckets shard := by
      by_contra hall
      push Not at hall
      have hsub : (symbols.map (cleanOf U)).dedup.filter (fun clean => hashShard clean n = shard) ⊆
          buckets shard := by
        intro clean hclean
        obtain ⟨hmem, hhome⟩ := List.mem_filter.mp hclean
        exact hall clean (List.mem_dedup.mp hmem) (of_decide_eq_true hhome)
      have hnodup := (List.nodup_dedup (symbols.map (cleanOf U))).filter
        (fun clean => hashShard clean n = shard)
      have hle := (List.subperm_of_subset hnodup hsub).length_le
      rw [← List.countP_eq_length_filter] at hle
      exact hover (hle.trans (bucketsOf_bounded hbuckets shard))
    obtain ⟨clean, hclean, hhome, habsent⟩ := hmissing
    obtain ⟨symbol, hsymbol, rfl⟩ := List.mem_map.mp hclean
    have hearlier : ∀ s ∈ [symbol], ¬ Blank U s := by
      intro s hs
      rw [List.mem_singleton.mp hs]
      exact hsymbols symbol hsymbol
    have hset : sortedSet ([symbol].map (cleanOf U)) = [cleanOf U symbol] := by simp [sortedSet]
    have halone : bucketsOf n c ([symbol].map (cleanOf U)) = some fun t =>
        (sortedSet ([symbol].map (cleanOf U))).filter fun clean => hashShard clean n = t := by
      refine bucketsOf_home fun t => ?_
      rw [hset]
      exact le_trans List.countP_le_length hc
    have hcard : ([symbol].map (cleanOf U)).toFinset.card ≤ n * c := by
      have hpos : 0 < n * c := Nat.mul_pos hn hc
      have hone : ([symbol].map (cleanOf U)).toFinset.card = 1 := by simp
      omega
    have hassigned := assignSymbolsToShards_eq (S := S) hn hc hearlier
    rw [if_pos hcard, halone] at hassigned
    have hsubset : [symbol].map (cleanOf U) ⊆ symbols.map (cleanOf U) := by
      intro t ht
      rw [List.map_singleton, List.mem_singleton] at ht
      rw [ht]
      exact hclean
    have hmem : cleanOf U symbol ∈ (shardsOf n fun t =>
        (sortedSet ([symbol].map (cleanOf U))).filter fun clean => hashShard clean n = t).getD
          shard [] := by
      rw [mem_shardsOf, hset]
      exact ⟨hshard, List.mem_filter.mpr ⟨List.mem_singleton.mpr rfl, decide_eq_true hhome⟩⟩
    exact habsent (mem_shardsOf.mp (hstable _ _ hsubset hassigned shard _ hmem)).2
  · intro hhomes earlier assigned hsubset hassigned shard clean hclean
    have hbound : ∀ cleans : List String, cleans ⊆ symbols.map (cleanOf U) → ∀ shard,
        (sortedSet cleans).countP (fun clean => hashShard clean n = shard) ≤ c := by
      intro cleans hsub shard
      rw [hcount]
      by_cases hshard : shard < n
      · have hsubperm : cleans.dedup.Subperm (symbols.map (cleanOf U)).dedup := by
          refine List.subperm_of_subset (List.nodup_dedup _) fun t ht => ?_
          exact List.mem_dedup.mpr (hsub (List.mem_dedup.mp ht))
        exact (hsubperm.countP_le _).trans (hhomes shard hshard)
      · have hzero : cleans.dedup.countP (fun clean => hashShard clean n = shard) = 0 := by
          rw [List.countP_eq_zero]
          intro t _ heq
          have hlt : hashShard t n < n := Nat.mod_lt _ hn
          exact hshard (of_decide_eq_true heq ▸ hlt)
        omega
    obtain ⟨_, buckets', hbuckets', rfl⟩ := assigned_cases hn hc hassigned
    rw [bucketsOf_home (hbound _ hsubset)] at hbuckets'
    rw [bucketsOf_home (hbound _ (List.Subset.refl _))] at hbuckets
    cases hbuckets'
    cases hbuckets
    rw [mem_shardsOf, List.mem_filter, mem_sortedSet] at hclean ⊢
    exact ⟨hclean.1, hsubset hclean.2.1, hclean.2.2⟩

end

theorem assign_btc : assignSymbolsToShards Strategies.asciiCases {} ["BTCUSDT"] (some (2 : ℕ))
    (some (1 : ℕ)) = .ok [[], ["BTCUSDT"]] := by decide +kernel

theorem assign_ada_btc : assignSymbolsToShards Strategies.asciiCases {} ["BTCUSDT", " adausdt"]
    (some (2 : ℕ)) (some (1 : ℕ)) = .ok [["BTCUSDT"], ["ADAUSDT"]] := by decide +kernel

theorem assignSymbolsToShards_stable_btc :
    (∀ (earlier : List String) (assigned : List (List String)),
        earlier.map (cleanOf Strategies.asciiCases) ⊆
          ["BTCUSDT"].map (cleanOf Strategies.asciiCases) →
        assignSymbolsToShards Strategies.asciiCases {} earlier (some (2 : ℕ)) (some (1 : ℕ)) =
          .ok assigned →
        ∀ shard clean, clean ∈ assigned.getD shard [] →
          clean ∈ [[], ["BTCUSDT"]].getD shard []) ↔
      ∀ shard < 2, (["BTCUSDT"].map (cleanOf Strategies.asciiCases)).dedup.countP
        (fun clean => hashShard clean 2 = shard) ≤ 1 :=
  assignSymbolsToShards_stable_iff Strategies.asciiCases {} Nat.two_pos Nat.one_pos assign_btc

/-- `BTCUSDT` alone is in shard 1; together with `ADAUSDT` it is in shard 0. -/
theorem assignSymbolsToShards_moves :
    ¬ ∀ (U : CaseMapping) (S : ShardSettings) (earlier symbols : List String) (n c : ℕ)
      (assigned assignment : List (List String)), 0 < n → 0 < c →
      earlier.map (cleanOf U) ⊆ symbols.map (cleanOf U) →
      assignSymbolsToShards U S earlier (some n) (some c) = .ok assigned →
      assignSymbolsToShards U S symbols (some n) (some c) = .ok assignment →
      ∀ shard clean, clean ∈ assigned.getD shard [] → clean ∈ assignment.getD shard [] := by
  intro h
  have hsubset : ["BTCUSDT"].map (cleanOf Strategies.asciiCases) ⊆
      ["BTCUSDT", " adausdt"].map (cleanOf Strategies.asciiCases) := by
    rw [List.map_cons, List.map_cons, List.map_nil]
    exact List.cons_subset_cons _ (List.nil_subset _)
  have hmoved := h Strategies.asciiCases {} _ _ 2 1 _ _ Nat.two_pos Nat.one_pos hsubset assign_btc
    assign_ada_btc 1 "BTCUSDT" List.mem_cons_self
  exact absurd hmoved (by decide)

end Quantive.WsSharding
