import Mathlib.Logic.Relation
import Quantive.Strategies.StoredModels

/-!
# The strategy catalog

`services/strategy_catalog.py`. A definition hash stands as the text that is hashed, and a version
keeps its definition as the column returns it.
-/

namespace Quantive.Strategies

/-- A row of `asset_registry`, under its id. -/
structure AssetRow where
  symbol : String
  exchange : String
  assetType : String

structure StrategyVersion where
  strategyKey : String
  versionNumber : ℕ
  schemaVersion : String
  definitionHash : String
  canonicalDefinition : Json

structure Catalog where
  strategies : List String
  versions : List StrategyVersion

structure StrategyVersionReference where
  strategyKey : String
  versionNumber : ℕ
  definitionHash : String

def CanonicalStrategyDefinition.definitionHash (d : CanonicalStrategyDefinition) : String :=
  d.canonicalJson

/-! ### Calls -/

def Catalog.createStrategy (c : Catalog) (strategyKey : String) : Except String Catalog :=
  if strategyKey ∈ c.strategies then .error ("strategy '" ++ strategyKey ++ "' already exists")
  else .ok { c with strategies := c.strategies ++ [strategyKey] }

def referencedAssetIds (definition : StrategyDefinitionInput) : List ℕ :=
  definition.universeAssetIds ++ definition.benchmarkAssetId.toList

def snapshotOf (U : CaseMapping) (registry : ℕ → Option AssetRow) (id : ℕ) :
    Option InstrumentSnapshot :=
  (registry id).bind fun asset =>
    InstrumentSnapshot.validate U id asset.symbol asset.exchange asset.assetType

def lockedAssetSnapshots (U : CaseMapping) (registry : ℕ → Option AssetRow) (assetIds : List ℕ) :
    Except String (ℕ → Option InstrumentSnapshot) :=
  if ∃ id ∈ assetIds, (registry id).isSome ∧ (snapshotOf U registry id).isNone then
    .error "validation error for InstrumentSnapshot"
  else
    let missing := (assetIds.dedup.filter fun id => (registry id).isNone).insertionSort (· ≤ ·)
    if missing ≠ [] then .error ("strategy references unknown assets: " ++ toString missing)
    else .ok fun id => if id ∈ assetIds then snapshotOf U registry id else none

/-- `create_version`, `strategy_catalog.py:64-103`. -/
def Catalog.createVersion (U : CaseMapping) (registry : ℕ → Option AssetRow) (c : Catalog)
    (strategyKey : String) (definition : StrategyDefinitionInput) :
    Except String (Catalog × StrategyVersion) :=
  if strategyKey ∉ c.strategies then .error ("strategy '" ++ strategyKey ++ "' not found")
  else do
    let assets ← lockedAssetSnapshots U registry (referencedAssetIds definition)
    let canonicalDefinition ← CanonicalStrategyDefinition.fromInput definition assets
    let definitionHash := canonicalDefinition.definitionHash
    match c.versions.find? fun v => v.strategyKey = strategyKey ∧ v.definitionHash = definitionHash with
    | some existing => .ok (c, existing)
    | none =>
      let numbers := (c.versions.filter fun v => v.strategyKey = strategyKey).map (·.versionNumber)
      let payload := canonicalDefinition.canonicalPayload
      -- the flush fails on a null character
      if payload.storable then
        let version := { strategyKey, versionNumber := numbers.max?.getD 0 + 1, schemaVersion,
                         definitionHash, canonicalDefinition := payload.reread }
        .ok ({ c with versions := c.versions ++ [version] }, version)
      else .error "unsupported Unicode escape sequence"

/-- `get_canonical_definition`, `strategy_catalog.py:105-139`. -/
def Catalog.getCanonicalDefinition (U : CaseMapping) (c : Catalog) (strategyKey : String)
    (versionNumber : ℕ) : Except String (StrategyVersionReference × CanonicalStrategyDefinition) :=
  match c.versions.find? fun v => v.strategyKey = strategyKey ∧ v.versionNumber = versionNumber with
  | none => .error ("strategy version '" ++ strategyKey ++ "' v" ++ toString versionNumber ++
      " not found")
  | some version =>
    match CanonicalStrategyDefinition.modelValidate U version.canonicalDefinition with
    | none => .error "stored strategy definition is invalid"
    | some canonicalDefinition =>
      if canonicalDefinition.definitionHash ≠ version.definitionHash then
        .error "stored strategy definition does not match its definition hash"
      else .ok (⟨version.strategyKey, version.versionNumber, version.definitionHash⟩,
        canonicalDefinition)

/-! ### Runs -/

section
variable (U : CaseMapping)

/-- A committed call; assets change between calls, versions do not. -/
inductive Catalog.Step : Catalog → Catalog → Prop
  | createStrategy {c c' : Catalog} (strategyKey : String) :
      c.createStrategy strategyKey = .ok c' → Step c c'
  | createVersion {c c' : Catalog} (registry : ℕ → Option AssetRow) (strategyKey : String)
      (definition : StrategyDefinitionInput) (version : StrategyVersion) :
      c.createVersion U registry strategyKey definition = .ok (c', version) → Step c c'

abbrev Catalog.Later : Catalog → Catalog → Prop := Relation.ReflTransGen (Catalog.Step U)

def Catalog.Reachable (c : Catalog) : Prop := Catalog.Later U ⟨[], []⟩ c

end

/-! ### The invariant -/

/-- The row of a version of `d`. -/
structure StrategyVersion.Stores (U : CaseMapping) (v : StrategyVersion)
    (d : CanonicalStrategyDefinition) : Prop where
  definitionHash : v.definitionHash = d.definitionHash
  canonicalDefinition : v.canonicalDefinition = stored d.modelDump
  normalized : ∀ i ∈ d.snapshots, i.Normalized U

structure Catalog.Valid (U : CaseMapping) (c : Catalog) : Prop where
  stores : ∀ v ∈ c.versions, ∃ d, v.Stores U d
  numbers : c.versions.Pairwise fun v w => v.strategyKey = w.strategyKey →
    v.versionNumber < w.versionNumber

section
variable {U : CaseMapping} {registry : ℕ → Option AssetRow} {c c' : Catalog} {strategyKey : String}
  {definition : StrategyDefinitionInput} {version : StrategyVersion}
  {assets : ℕ → Option InstrumentSnapshot} {d : CanonicalStrategyDefinition}

theorem lockedAssetSnapshots_ok {assetIds : List ℕ}
    (h : lockedAssetSnapshots U registry assetIds = .ok assets) (id : ℕ) :
    assets id = if id ∈ assetIds then snapshotOf U registry id else none := by
  simp only [lockedAssetSnapshots] at h
  split_ifs at h
  cases h
  rfl

theorem snapshotOf_some {id : ℕ} {i : InstrumentSnapshot} (h : snapshotOf U registry id = some i) :
    i.Normalized U ∧ i.assetId = id ∧ ∃ asset, registry id = some asset ∧
      i.symbol = U.upper (strip asset.symbol) ∧ i.exchange = U.upper (strip asset.exchange) ∧
      i.assetType = U.upper (strip asset.assetType) := by
  obtain ⟨asset, hasset, hvalidate⟩ := Option.bind_eq_some_iff.mp h
  obtain ⟨hnormal, hid, htexts⟩ := InstrumentSnapshot.normalized_of_validate hvalidate
  rw [Int.toNat_natCast] at hid
  exact ⟨hnormal, hid, asset, hasset, htexts⟩

/-- The snapshots of a definition are those of its assets. -/
theorem mem_snapshots_iff (hd : d.Resolves definition assets) {i : InstrumentSnapshot} :
    i ∈ d.snapshots ↔ ∃ id ∈ referencedAssetIds definition, assets id = some i := by
  have huniverse : i ∈ d.universe ↔ ∃ id ∈ definition.universeAssetIds, assets id = some i := by
    rw [hd.universe, List.mem_filterMap]
    simp only [List.mem_insertionSort]
  have hbenchmark : i ∈ d.benchmark.toList ↔
      ∃ id ∈ definition.benchmarkAssetId.toList, assets id = some i := by
    rw [hd.benchmark]
    cases definition.benchmarkAssetId with
    | none => simp
    | some id => simp
  rw [CanonicalStrategyDefinition.snapshots, referencedAssetIds, List.mem_append, huniverse,
    hbenchmark]
  simp only [List.mem_append, or_and_right, exists_or]

theorem normalized_of_resolves
    (hassets : lockedAssetSnapshots U registry (referencedAssetIds definition) = .ok assets)
    (hd : d.Resolves definition assets) : ∀ i ∈ d.snapshots, i.Normalized U := by
  intro i hi
  obtain ⟨id, hid, hsnapshot⟩ := (mem_snapshots_iff hd).mp hi
  rw [lockedAssetSnapshots_ok hassets, if_pos hid] at hsnapshot
  exact (snapshotOf_some hsnapshot).1

/-- What a committed `create_version` did. -/
theorem createVersion_cases
    (h : c.createVersion U registry strategyKey definition = .ok (c', version)) :
    ∃ assets d, lockedAssetSnapshots U registry (referencedAssetIds definition) = .ok assets ∧
      CanonicalStrategyDefinition.fromInput definition assets = .ok d ∧
      version.strategyKey = strategyKey ∧ version.definitionHash = d.definitionHash ∧
      (c' = c ∧ version ∈ c.versions ∨
        c' = { c with versions := c.versions ++ [version] } ∧
        version.canonicalDefinition = stored d.modelDump ∧
        ∀ v ∈ c.versions, v.strategyKey = strategyKey → v.versionNumber < version.versionNumber) := by
  rw [Catalog.createVersion] at h
  split_ifs at h with hknown
  cases hassets : lockedAssetSnapshots U registry (referencedAssetIds definition) with
  | error e =>
    rw [hassets] at h
    cases h
  | ok assets =>
    cases hd : CanonicalStrategyDefinition.fromInput definition assets with
    | error e =>
      simp only [hassets, hd, bind, Except.bind] at h
      cases h
    | ok d =>
      refine ⟨assets, d, rfl, hd, ?_⟩
      simp only [hassets, hd, bind, Except.bind] at h
      cases hfind : c.versions.find? fun v =>
          v.strategyKey = strategyKey ∧ v.definitionHash = d.definitionHash with
      | some existing =>
        simp only [hfind, Except.ok.injEq, Prod.mk.injEq] at h
        obtain ⟨rfl, rfl⟩ := h
        have hfound := List.find?_some hfind
        rw [decide_eq_true_eq] at hfound
        exact ⟨hfound.1, hfound.2, .inl ⟨rfl, List.mem_of_find?_eq_some hfind⟩⟩
      | none =>
        simp only [hfind] at h
        split_ifs at h
        cases h
        refine ⟨rfl, rfl, .inr ⟨rfl, rfl, fun v hv hkey => ?_⟩⟩
        have hmem : v.versionNumber ∈ (c.versions.filter fun v => v.strategyKey = strategyKey).map
            (·.versionNumber) :=
          List.mem_map_of_mem (List.mem_filter.mpr ⟨hv, decide_eq_true hkey⟩)
        exact Nat.lt_succ_of_le (List.le_max?_getD_of_mem hmem)

theorem Catalog.Valid.step (hc : c.Valid U) (h : Catalog.Step U c c') : c'.Valid U := by
  cases h with
  | createStrategy key h =>
    rw [Catalog.createStrategy] at h
    split_ifs at h
    cases h
    exact ⟨hc.stores, hc.numbers⟩
  | createVersion registry key definition version h =>
    obtain ⟨assets, d, hassets, hd, hkey, hhash, hcase⟩ := createVersion_cases h
    rcases hcase with ⟨rfl, _⟩ | ⟨rfl, hstored, hnumber⟩
    · exact hc
    · have hnormal := normalized_of_resolves hassets (CanonicalStrategyDefinition.resolves hd)
      constructor
      · intro v hv
        rcases List.mem_append.mp hv with hv | hv
        · exact hc.stores v hv
        · rw [List.mem_singleton.mp hv]
          exact ⟨d, hhash, hstored, hnormal⟩
      · rw [List.pairwise_append]
        refine ⟨hc.numbers, List.pairwise_singleton _ _, fun v hv w hw hsame => ?_⟩
        rw [List.mem_singleton.mp hw] at hsame ⊢
        exact hnumber v hv (hsame.trans hkey)

theorem Catalog.Valid.later (hc : c.Valid U) (h : Catalog.Later U c c') : c'.Valid U := by
  induction h with
  | refl => exact hc
  | tail _ hstep ih => exact ih.step hstep

theorem Catalog.Reachable.valid (h : c.Reachable U) : c.Valid U := by
  have hempty : (⟨[], []⟩ : Catalog).Valid U := ⟨fun _ hv => (List.not_mem_nil hv).elim, List.Pairwise.nil⟩
  exact hempty.later h

/-- Versions are never removed. -/
theorem Catalog.Later.mem (h : Catalog.Later U c c') (hv : version ∈ c.versions) :
    version ∈ c'.versions := by
  induction h with
  | refl => exact hv
  | tail _ hstep ih =>
    cases hstep with
    | createStrategy key h =>
      rw [Catalog.createStrategy] at h
      split_ifs at h
      cases h
      exact ih
    | createVersion registry key definition added h =>
      obtain ⟨_, _, _, _, _, _, hcase⟩ := createVersion_cases h
      rcases hcase with ⟨rfl, _⟩ | ⟨rfl, _⟩
      · exact ih
      · exact List.mem_append_left _ ih

/-! ### Reading a version -/

theorem Catalog.Valid.find (hc : c.Valid U) (hv : version ∈ c.versions) :
    c.versions.find? (fun v => v.strategyKey = version.strategyKey ∧
      v.versionNumber = version.versionNumber) = some version := by
  cases hfind : c.versions.find? fun v =>
      v.strategyKey = version.strategyKey ∧ v.versionNumber = version.versionNumber with
  | none =>
    rw [List.find?_eq_none] at hfind
    exact (hfind version hv (decide_eq_true ⟨rfl, rfl⟩)).elim
  | some v =>
    have hfound := List.find?_some hfind
    rw [decide_eq_true_eq] at hfound
    obtain ⟨k, hk, rfl⟩ := List.mem_iff_getElem.mp (List.mem_of_find?_eq_some hfind)
    obtain ⟨l, hl, rfl⟩ := List.mem_iff_getElem.mp hv
    have hnumbers := List.pairwise_iff_getElem.mp hc.numbers
    rcases Nat.lt_trichotomy k l with hlt | rfl | hlt
    · exact absurd hfound.2 (hnumbers k l hk hl hlt hfound.1).ne
    · rfl
    · exact absurd hfound.2 (hnumbers l k hl hk hlt hfound.1.symm).ne'

/-- A version is readable exactly when nothing of its definition changed in the column. -/
theorem Catalog.Valid.getCanonicalDefinition_iff (hc : c.Valid U) (hv : version ∈ c.versions)
    (hstores : version.Stores U d) :
    (∃ e, c.getCanonicalDefinition U version.strategyKey version.versionNumber =
        .ok (⟨version.strategyKey, version.versionNumber, version.definitionHash⟩, e) ∧ e.Same d) ↔
      d.Survives ∧ ∀ i ∈ d.snapshots, i.Fits := by
  have hread := d.modelValidate_stored hstores.normalized
  rw [← hstores.canonicalDefinition] at hread
  by_cases hfits : ∀ i ∈ d.snapshots, i.Fits
  · rw [if_pos hfits] at hread
    by_cases hsame : d.reread.Same d
    · have hhash : ¬ d.reread.definitionHash ≠ version.definitionHash := by
        rw [hstores.definitionHash, not_not]
        exact CanonicalStrategyDefinition.same_iff_text.mp hsame
      refine iff_of_true ⟨d.reread, ?_, hsame⟩
        ⟨CanonicalStrategyDefinition.same_reread_iff.mp hsame, hfits⟩
      simp only [Catalog.getCanonicalDefinition, hc.find hv, hread, if_neg hhash]
    · have hhash : d.reread.definitionHash ≠ version.definitionHash := by
        rw [hstores.definitionHash]
        exact fun h => hsame (CanonicalStrategyDefinition.same_iff_text.mpr h)
      refine iff_of_false ?_ fun h => hsame (CanonicalStrategyDefinition.same_reread_iff.mpr h.1)
      rintro ⟨e, hget, _⟩
      simp only [Catalog.getCanonicalDefinition, hc.find hv, hread, if_pos hhash] at hget
      cases hget
  · rw [if_neg hfits] at hread
    refine iff_of_false ?_ fun h => hfits h.2
    rintro ⟨e, hget, _⟩
    simp only [Catalog.getCanonicalDefinition, hc.find hv, hread] at hget
    cases hget

end

/-! ### Readable definitions -/

/-- No float of the definition changes in the column: no nested float is a negative zero or is
`10 ^ 16` or more in size, and no charge is a negative zero. -/
structure StrategyDefinitionInput.Survives (a : StrategyDefinitionInput) : Prop where
  parameters : a.parameters.Survives
  signals : ∀ s ∈ a.signals, s.definition.Survives
  sizing : a.position.sizing.Survives
  charges : ¬ a.execution.feeBps.NegativeZero ∧ ¬ a.execution.slippageBps.NegativeZero

/-- The normalized texts of each asset still have at most 50 characters. -/
def StrategyDefinitionInput.Fits (U : CaseMapping) (registry : ℕ → Option AssetRow)
    (a : StrategyDefinitionInput) : Prop :=
  ∀ id ∈ referencedAssetIds a, ∀ asset, registry id = some asset →
    ∀ s ∈ [asset.symbol, asset.exchange, asset.assetType], (U.upper (strip s)).length ≤ 50

section
variable {U : CaseMapping} {registry : ℕ → Option AssetRow} {definition : StrategyDefinitionInput}
  {assets : ℕ → Option InstrumentSnapshot} {d : CanonicalStrategyDefinition}

theorem survives_iff (hd : d.Resolves definition assets) : d.Survives ↔ definition.Survives := by
  have hsignals : (∀ s ∈ d.signals, s.definition.Survives) ↔
      ∀ s ∈ definition.signals, s.definition.Survives := by
    rw [hd.signals]
    simp only [List.mem_insertionSort]
  constructor
  · rintro ⟨hparameters, hs, hsizing, hcharges⟩
    rw [hd.parameters] at hparameters
    rw [hd.position] at hsizing
    rw [hd.execution] at hcharges
    exact ⟨hparameters, hsignals.mp hs, hsizing, hcharges⟩
  · rintro ⟨hparameters, hs, hsizing, hcharges⟩
    rw [← hd.parameters] at hparameters
    rw [← hd.position] at hsizing
    rw [← hd.execution] at hcharges
    exact ⟨hparameters, hsignals.mpr hs, hsizing, hcharges⟩

theorem fits_iff
    (hassets : lockedAssetSnapshots U registry (referencedAssetIds definition) = .ok assets)
    (hd : d.Resolves definition assets) :
    (∀ i ∈ d.snapshots, i.Fits) ↔ definition.Fits U registry := by
  constructor
  · intro h id hid asset hasset
    obtain ⟨i, hi⟩ := Option.isSome_iff_exists.mp (hd.known id hid)
    have hfits := h i ((mem_snapshots_iff hd).mpr ⟨id, hid, hi⟩)
    rw [lockedAssetSnapshots_ok hassets, if_pos hid] at hi
    obtain ⟨_, _, asset', hasset', hsymbol, hexchange, htype⟩ := snapshotOf_some hi
    cases hasset.symm.trans hasset'
    simp only [InstrumentSnapshot.Fits, hsymbol, hexchange, htype] at hfits
    simpa using hfits
  · intro h i hi
    obtain ⟨id, hid, hsnapshot⟩ := (mem_snapshots_iff hd).mp hi
    rw [lockedAssetSnapshots_ok hassets, if_pos hid] at hsnapshot
    obtain ⟨_, _, asset, hasset, hsymbol, hexchange, htype⟩ := snapshotOf_some hsnapshot
    have hfits := h id hid asset hasset
    simp only [InstrumentSnapshot.Fits, hsymbol, hexchange, htype]
    simpa using hfits

end

/-- A version that `create_version` returned is readable, as the same definition, exactly when no
float changes in the column and the normalized texts of the assets fit. -/
theorem Catalog.createVersion_readable_iff (U : CaseMapping) {c c' c'' : Catalog}
    (hc : c.Reachable U) (registry : ℕ → Option AssetRow) (strategyKey : String)
    (definition : StrategyDefinitionInput) {version : StrategyVersion}
    (hcreate : c.createVersion U registry strategyKey definition = .ok (c', version))
    (hlater : Catalog.Later U c' c'') :
    (∃ assets d e, lockedAssetSnapshots U registry (referencedAssetIds definition) = .ok assets ∧
        CanonicalStrategyDefinition.fromInput definition assets = .ok d ∧
        c''.getCanonicalDefinition U strategyKey version.versionNumber =
          .ok (⟨strategyKey, version.versionNumber, d.definitionHash⟩, e) ∧ e.Same d) ↔
      definition.Survives ∧ definition.Fits U registry := by
  obtain ⟨assets, d, hassets, hd, hkey, hhash, hcase⟩ := createVersion_cases hcreate
  have hresolves := CanonicalStrategyDefinition.resolves hd
  have hvalid : c'.Valid U := hc.valid.step (.createVersion registry strategyKey definition _ hcreate)
  have hmem : version ∈ c'.versions := by
    rcases hcase with ⟨rfl, hmem⟩ | ⟨rfl, _⟩
    · exact hmem
    · exact List.mem_append_right _ (List.mem_singleton.mpr rfl)
  -- the version was stored for a definition with the same text
  obtain ⟨e, hstores⟩ := hvalid.stores version hmem
  have hsame : d.Same e := by
    rw [CanonicalStrategyDefinition.same_iff_text]
    exact hhash.symm.trans hstores.definitionHash
  have hsame' : e.Same d := by
    rw [CanonicalStrategyDefinition.same_iff_text] at hsame ⊢
    exact hsame.symm
  have hread := (hvalid.later hlater).getCanonicalDefinition_iff (hlater.mem hmem) hstores
  rw [hkey] at hread
  rw [← survives_iff hresolves, ← fits_iff hassets hresolves]
  constructor
  · rintro ⟨assets', d', f, hassets', hd', hget, hf⟩
    cases hassets.symm.trans hassets'
    cases hd.symm.trans hd'
    have hfe : f.Same e := by
      rw [CanonicalStrategyDefinition.same_iff_text] at hf hsame ⊢
      exact hf.trans hsame
    rw [← hhash] at hget
    obtain ⟨hsurvives, hfits⟩ := hread.mp ⟨f, hget, hfe⟩
    rw [hsame.snapshots]
    exact ⟨hsame'.survives hsurvives, hfits⟩
  · rintro ⟨hsurvives, hfits⟩
    rw [hsame.snapshots] at hfits
    obtain ⟨f, hget, hf⟩ := hread.mpr ⟨hsame.survives hsurvives, hfits⟩
    refine ⟨assets, d, f, hassets, hd, hhash ▸ hget, ?_⟩
    rw [CanonicalStrategyDefinition.same_iff_text] at hf hsame' ⊢
    exact hf.trans hsame'

/-! A definition with the parameter `1e16`. -/

def bitcoinRow (_ : ℕ) : Option AssetRow := some ⟨"btcusdt", "binance", "crypto"⟩

def tenQuadrillion : PyFloat := ⟨false, 1, 16, by decide⟩

def weighted : StrategyDefinitionInput :=
  { momentum with
    parameters := ⟨[("weight", .number (.float tenQuadrillion))], List.nodup_singleton _, trivial,
      trivial⟩ }

/-- The first version of a definition on the two assets. -/
def firstVersion (d : CanonicalStrategyDefinition) : StrategyVersion :=
  ⟨"momentum", 1, schemaVersion, d.definitionHash, d.canonicalPayload.reread⟩

def canonicalWeighted : CanonicalStrategyDefinition :=
  { canonicalMomentum momentum.execution with parameters := weighted.parameters }

def emptyCatalog : Catalog := ⟨["momentum"], []⟩

theorem emptyCatalog_reachable (U : CaseMapping) : emptyCatalog.Reachable U :=
  .single (.createStrategy "momentum" rfl)

theorem createVersion_momentum :
    emptyCatalog.createVersion asciiCases bitcoinRow "momentum" momentum =
      .ok (⟨["momentum"], [firstVersion (canonicalMomentum momentum.execution)]⟩,
        firstVersion (canonicalMomentum momentum.execution)) := by
  rfl

theorem createVersion_momentum_readable :
    (∃ assets d e,
        lockedAssetSnapshots asciiCases bitcoinRow (referencedAssetIds momentum) = .ok assets ∧
        CanonicalStrategyDefinition.fromInput momentum assets = .ok d ∧
        Catalog.getCanonicalDefinition asciiCases
            ⟨["momentum"], [firstVersion (canonicalMomentum momentum.execution)]⟩ "momentum" 1 =
          .ok (⟨"momentum", 1, d.definitionHash⟩, e) ∧ e.Same d) ↔
      momentum.Survives ∧ momentum.Fits asciiCases bitcoinRow :=
  @Catalog.createVersion_readable_iff asciiCases emptyCatalog _ _ (emptyCatalog_reachable asciiCases)
    bitcoinRow "momentum" momentum (firstVersion (canonicalMomentum momentum.execution))
    createVersion_momentum .refl

/-- The column shows `1e16` without a point. -/
theorem createVersion_large_parameter :
    ¬ ∀ (U : CaseMapping) (c c' : Catalog) (registry : ℕ → Option AssetRow) (strategyKey : String)
      (definition : StrategyDefinitionInput) (version : StrategyVersion), c.Reachable U →
      c.createVersion U registry strategyKey definition = .ok (c', version) →
      ∃ assets d e, lockedAssetSnapshots U registry (referencedAssetIds definition) = .ok assets ∧
        CanonicalStrategyDefinition.fromInput definition assets = .ok d ∧
        c'.getCanonicalDefinition U strategyKey version.versionNumber =
          .ok (⟨strategyKey, version.versionNumber, d.definitionHash⟩, e) ∧ e.Same d := by
  intro h
  have hcreate : emptyCatalog.createVersion asciiCases bitcoinRow "momentum" weighted =
      .ok (⟨["momentum"], [firstVersion canonicalWeighted]⟩, firstVersion canonicalWeighted) := rfl
  have hreachable := emptyCatalog_reachable asciiCases
  obtain ⟨assets, d, e, hassets, hd, hget, hsame⟩ :=
    h asciiCases emptyCatalog _ bitcoinRow "momentum" weighted _ hreachable hcreate
  have hvalid := hreachable.valid.step (.createVersion bitcoinRow "momentum" weighted _ hcreate)
  have hresolves := CanonicalStrategyDefinition.resolves hd
  obtain ⟨assets', d', hassets', hd', _, hhash, hcase⟩ := createVersion_cases hcreate
  cases hassets.symm.trans hassets'
  cases hd.symm.trans hd'
  rcases hcase with ⟨_, hmem⟩ | ⟨_, hstored, _⟩
  · cases hmem
  have hstores : (firstVersion canonicalWeighted).Stores asciiCases d :=
    ⟨hhash, hstored, normalized_of_resolves hassets hresolves⟩
  have hread := (hvalid.getCanonicalDefinition_iff List.mem_cons_self hstores).mp
    ⟨e, by rw [hhash]; exact hget, hsame⟩
  have hparameters := ((survives_iff hresolves).mp hread.1).parameters
  have hlarge : tenQuadrillion.Large := by decide
  exact hparameters.1.2 hlarge

end Quantive.Strategies
