import Mathlib.Data.List.Induction
import Mathlib.Data.List.Sort
import Quantive.Candles.Ingestion

/-!
# Candle events

The events of a shard (`connectors/models.py`) and what a flush of `ws_sharding/pipeline.py` makes
of a batch before anything is written: its groups by asset, in the order in which the assets first
occur, each sorted and rid of repeated open times.
-/

namespace Quantive.WsSharding
open Quantive.Candles

structure CandleEvent where
  symbol : String
  interval : String := "1m"
  timestamp : ℤ
  closeTime : ℤ
  values : Ohlcv
  isClosed : Bool
  source : String := "binance_ws"
  eventTime : Option ℤ := none
  receivedAt : ℤ
  deriving DecidableEq

/-- `validate_candle_payload`, `pipeline.py:35-81`. -/
def validateCandlePayload (event : CandleEvent) : Bool :=
  let v := event.values
  event.isClosed &&
  String.ofList ((strip event.interval.toList).map Char.toLower) = "1m" &&
  !(v.open ≤ 0 || v.high ≤ 0 || v.low ≤ 0 || v.close ≤ 0 || v.volume < 0) &&
  !(v.high < v.low - epsilon) &&
  !(v.open < v.low - epsilon || v.high + epsilon < v.open) &&
  !(v.close < v.low - epsilon || v.high + epsilon < v.close) &&
  event.timestamp % minute = 0 &&
  !(event.closeTime < event.timestamp)

/-- What the registry answers for a symbol of the exchange: the asset and whether it is active. -/
abbrev Registry := String → Option (ℕ × Bool)

/-- `asset_groups[asset_id].append(event)`; a dict keeps the order of its first insertions. -/
def appendTo (assetId : ℕ) (event : CandleEvent) :
    List (ℕ × List CandleEvent) → List (ℕ × List CandleEvent)
  | [] => [(assetId, [event])]
  | (a, events) :: rest =>
    if a = assetId then (a, events ++ [event]) :: rest else (a, events) :: appendTo assetId event rest

/-- The groups of the loop over a batch, `pipeline.py:380-411`. -/
def assetGroups (resolve : Registry) (batch : List CandleEvent) : List (ℕ × List CandleEvent) :=
  batch.foldl (fun groups event => match resolve event.symbol with
    | some (assetId, true) => appendTo assetId event groups
    | _ => groups) []

/-- The loop over the sorted events, `pipeline.py:424-433`: the events that are kept and the
duplicates. -/
def dedupFrom (seen : List ℤ) : List CandleEvent → List CandleEvent × List CandleEvent
  | [] => ([], [])
  | event :: rest =>
    if event.timestamp ∈ seen then
      let (kept, duplicates) := dedupFrom seen rest
      (kept, event :: duplicates)
    else
      let (kept, duplicates) := dedupFrom (event.timestamp :: seen) rest
      (event :: kept, duplicates)

/-- `sorted(events, key=lambda e: e.timestamp)`; Python's sort is stable. -/
def sortedEvents (events : List CandleEvent) : List CandleEvent :=
  events.insertionSort fun a b => a.timestamp ≤ b.timestamp

def dedupedEvents (events : List CandleEvent) : List CandleEvent × List CandleEvent :=
  dedupFrom [] (sortedEvents events)

/-- The dict of an event. -/
def CandleEvent.payload (assetId : ℕ) (event : CandleEvent) : CandlePayload :=
  { assetId := some assetId, timestamp := event.timestamp
    «open» := some event.values.open, high := some event.values.high
    low := some event.values.low, close := some event.values.close
    volume := some event.values.volume, source := some event.source
    sourceEventTime := event.eventTime, sourceReceivedAt := some event.receivedAt }

/-! ### Groups -/

theorem mem_appendTo {assetId : ℕ} {event : CandleEvent} {groups : List (ℕ × List CandleEvent)}
    {a : ℕ} : a ∈ (appendTo assetId event groups).map (·.1) ↔ a = assetId ∨ a ∈ groups.map (·.1) := by
  induction groups with
  | nil => simp [appendTo]
  | cons g rest ih =>
    obtain ⟨b, events⟩ := g
    unfold appendTo
    by_cases hb : b = assetId
    · rw [if_pos hb]
      simp only [List.map_cons, List.mem_cons, hb]
      tauto
    · rw [if_neg hb]
      simp only [List.map_cons, List.mem_cons, ih]
      tauto

theorem appendTo_nodup {assetId : ℕ} {event : CandleEvent} {groups : List (ℕ × List CandleEvent)}
    (h : (groups.map (·.1)).Nodup) : ((appendTo assetId event groups).map (·.1)).Nodup := by
  induction groups with
  | nil => simp [appendTo]
  | cons g rest ih =>
    obtain ⟨b, events⟩ := g
    obtain ⟨hb, hrest⟩ := List.nodup_cons.mp h
    unfold appendTo
    by_cases he : b = assetId
    · rw [if_pos he]
      exact List.nodup_cons.mpr ⟨hb, hrest⟩
    · rw [if_neg he]
      refine List.nodup_cons.mpr ⟨fun hm => ?_, ih hrest⟩
      rcases mem_appendTo.mp hm with h | h
      · exact he h
      · exact hb h

/-- The events of an asset in some groups. -/
def eventsOf (assetId : ℕ) (groups : List (ℕ × List CandleEvent)) : List CandleEvent :=
  groups.flatMap fun g => if g.1 = assetId then g.2 else []

theorem eventsOf_appendTo {assetId a : ℕ} {event : CandleEvent}
    {groups : List (ℕ × List CandleEvent)} (h : (groups.map (·.1)).Nodup) :
    eventsOf a (appendTo assetId event groups) =
      eventsOf a groups ++ if assetId = a then [event] else [] := by
  induction groups with
  | nil => simp [eventsOf, appendTo]
  | cons g rest ih =>
    obtain ⟨b, events⟩ := g
    obtain ⟨hb, hrest⟩ := List.nodup_cons.mp h
    unfold appendTo
    by_cases he : b = assetId
    · subst he
      have hnone : eventsOf b rest = [] := by
        refine List.flatMap_eq_nil_iff.mpr fun x hx => if_neg fun hxb => hb ?_
        exact List.mem_map.mpr ⟨x, hx, hxb⟩
      rw [if_pos rfl]
      by_cases ha : b = a
      · subst ha
        change (if b = b then events ++ [event] else []) ++ eventsOf b rest =
          (if b = b then events else []) ++ eventsOf b rest ++ _
        rw [hnone]
        simp
      · simp [eventsOf, ha]
    · rw [if_neg he]
      change (if b = a then events else []) ++ eventsOf a (appendTo assetId event rest) =
        (if b = a then events else []) ++ eventsOf a rest ++ _
      rw [ih hrest, List.append_assoc]

/-- Of every asset, the groups hold the active events of the batch in their order. -/
theorem assetGroups_spec (resolve : Registry) (batch : List CandleEvent) :
    ((assetGroups resolve batch).map (·.1)).Nodup ∧ ∀ a, eventsOf a (assetGroups resolve batch) =
      batch.filter fun e => resolve e.symbol = some (a, true) := by
  induction batch using List.reverseRecOn with
  | nil => exact ⟨List.nodup_nil, fun _ => rfl⟩
  | append_singleton batch e ih =>
    obtain ⟨hnodup, hevents⟩ := ih
    have hsnoc : assetGroups resolve (batch ++ [e]) = match resolve e.symbol with
        | some (assetId, true) => appendTo assetId e (assetGroups resolve batch)
        | _ => assetGroups resolve batch := List.foldl_append
    rw [hsnoc]
    split
    · rename_i assetId hresolve
      refine ⟨appendTo_nodup hnodup, fun a => ?_⟩
      rw [eventsOf_appendTo hnodup, hevents, List.filter_append]
      congr 1
      by_cases ha : assetId = a
      · simp [hresolve, ha]
      · simp [hresolve, ha]
    · rename_i hother
      refine ⟨hnodup, fun a => ?_⟩
      have hskip : ¬ resolve e.symbol = some (a, true) := hother a
      rw [hevents, List.filter_append]
      simp [hskip]

theorem eventsOf_group {groups : List (ℕ × List CandleEvent)} (h : (groups.map (·.1)).Nodup)
    {g : ℕ × List CandleEvent} (hg : g ∈ groups) : eventsOf g.1 groups = g.2 := by
  induction groups with
  | nil => cases hg
  | cons x rest ih =>
    obtain ⟨hx, hrest⟩ := List.nodup_cons.mp h
    change (if x.1 = g.1 then x.2 else []) ++ eventsOf g.1 rest = g.2
    rcases List.mem_cons.mp hg with rfl | hg
    · have hnone : eventsOf g.1 rest = [] := by
        refine List.flatMap_eq_nil_iff.mpr fun y hy => if_neg fun hyg => hx ?_
        exact List.mem_map.mpr ⟨y, hy, hyg⟩
      rw [if_pos rfl, hnone, List.append_nil]
    · have hne : x.1 ≠ g.1 := fun he => hx (List.mem_map.mpr ⟨g, hg, he.symm⟩)
      rw [if_neg hne, List.nil_append]
      exact ih hrest hg

theorem flatMap_eventsOf {α : Type} {X : List CandleEvent → List α} (hX : X [] = []) {a : ℕ}
    {groups : List (ℕ × List CandleEvent)} (h : (groups.map (·.1)).Nodup) :
    (groups.flatMap fun g => if g.1 = a then X g.2 else []) = X (eventsOf a groups) := by
  induction groups with
  | nil => exact hX.symm
  | cons g groups ih =>
    obtain ⟨hg, hrest⟩ := List.nodup_cons.mp h
    rw [List.flatMap_cons, ih hrest]
    change _ = X ((if g.1 = a then g.2 else []) ++ eventsOf a groups)
    by_cases ha : g.1 = a
    · have hnone : eventsOf a groups = [] := by
        refine List.flatMap_eq_nil_iff.mpr fun y hy => if_neg fun hya => hg ?_
        exact List.mem_map.mpr ⟨y, hy, hya.trans ha.symm⟩
      rw [if_pos ha, if_pos ha, hnone, hX, List.append_nil, List.append_nil]
    · rw [if_neg ha, if_neg ha]
      rfl

/-! ### Sorting and duplicates -/

/-- Sorting leaves the events of one open time in their order. -/
theorem sortedEvents_filter (t : ℤ) (events : List CandleEvent) :
    (sortedEvents events).filter (fun e => e.timestamp = t) =
      events.filter fun e => e.timestamp = t := by
  have hinsert : ∀ (e : CandleEvent) (xs : List CandleEvent),
      (xs.orderedInsert (fun a b => a.timestamp ≤ b.timestamp) e).filter (fun e => e.timestamp = t) =
        (e :: xs).filter fun e => e.timestamp = t := by
    intro e xs
    induction xs with
    | nil => rfl
    | cons x xs ih =>
      unfold List.orderedInsert
      by_cases hle : e.timestamp ≤ x.timestamp
      · rw [if_pos hle]
      · -- `e` passes `x`, whose open time is another one
        rw [if_neg hle, List.filter_cons, ih]
        by_cases hx : x.timestamp = t
        · have he : ¬ e.timestamp = t := by omega
          simp [hx, he]
        · simp [hx, List.filter_cons]
  induction events with
  | nil => rfl
  | cons e events ih =>
    change (List.orderedInsert _ e (sortedEvents events)).filter _ = _
    rw [hinsert, List.filter_cons, List.filter_cons, ih]

/-- The first event of an open time that was not seen is kept. -/
theorem dedupFrom_filter (t : ℤ) (seen : List ℤ) (events : List CandleEvent) :
    (dedupFrom seen events).1.filter (fun e => e.timestamp = t) =
      if t ∈ seen then [] else (events.filter fun e => e.timestamp = t).head?.toList := by
  induction events generalizing seen with
  | nil => simp [dedupFrom]
  | cons e events ih =>
    unfold dedupFrom
    by_cases hseen : e.timestamp ∈ seen
    · rw [if_pos hseen]
      change (dedupFrom seen events).1.filter _ = _
      rw [ih]
      by_cases ht : t ∈ seen
      · rw [if_pos ht, if_pos ht]
      · have hne : ¬ e.timestamp = t := fun h => ht (h ▸ hseen)
        rw [if_neg ht, if_neg ht, List.filter_cons_of_neg (by simpa using hne)]
    · rw [if_neg hseen]
      change (e :: (dedupFrom (e.timestamp :: seen) events).1).filter _ = _
      by_cases he : e.timestamp = t
      · subst he
        rw [List.filter_cons_of_pos (by simp), ih, if_pos List.mem_cons_self, if_neg hseen,
          List.filter_cons_of_pos (by simp)]
        rfl
      · have hmem : t ∈ e.timestamp :: seen ↔ t ∈ seen := by
          simp [Ne.symm he]
        rw [List.filter_cons_of_neg (by simpa using he), ih,
          List.filter_cons_of_neg (by simpa using he)]
        simp only [hmem]

/-- Of every open time a group keeps its first event. -/
theorem dedupedEvents_filter (t : ℤ) (events : List CandleEvent) :
    (dedupedEvents events).1.filter (fun e => e.timestamp = t) =
      (events.filter fun e => e.timestamp = t).head?.toList := by
  unfold dedupedEvents
  rw [dedupFrom_filter, if_neg List.not_mem_nil, sortedEvents_filter]

/-- What is kept and the duplicates are the events. -/
theorem dedupFrom_perm (seen : List ℤ) (events : List CandleEvent) :
    ((dedupFrom seen events).1 ++ (dedupFrom seen events).2).Perm events := by
  induction events generalizing seen with
  | nil => exact .refl _
  | cons e events ih =>
    unfold dedupFrom
    by_cases hseen : e.timestamp ∈ seen
    · rw [if_pos hseen]
      exact List.perm_middle.trans ((ih seen).cons e)
    · rw [if_neg hseen]
      exact (ih (e.timestamp :: seen)).cons e

theorem dedupedEvents_perm (events : List CandleEvent) :
    ((dedupedEvents events).1 ++ (dedupedEvents events).2).Perm events :=
  (dedupFrom_perm [] _).trans (List.perm_insertionSort _ events)

theorem dedupFrom_increasing {seen : List ℤ} {events : List CandleEvent}
    (h : events.Pairwise fun a b => a.timestamp ≤ b.timestamp) :
    (dedupFrom seen events).1.Pairwise (fun a b => a.timestamp < b.timestamp) ∧
      ∀ e ∈ (dedupFrom seen events).1, e.timestamp ∉ seen := by
  induction events generalizing seen with
  | nil => exact ⟨.nil, by simp [dedupFrom]⟩
  | cons e events ih =>
    obtain ⟨hfirst, hrest⟩ := List.pairwise_cons.mp h
    unfold dedupFrom
    by_cases hseen : e.timestamp ∈ seen
    · rw [if_pos hseen]
      exact ih hrest
    · rw [if_neg hseen]
      obtain ⟨hkept, hnew⟩ : (dedupFrom (e.timestamp :: seen) events).1.Pairwise
          (fun a b => a.timestamp < b.timestamp) ∧
          ∀ x ∈ (dedupFrom (e.timestamp :: seen) events).1, x.timestamp ∉ e.timestamp :: seen :=
        ih hrest
      refine ⟨List.pairwise_cons.mpr ⟨fun x hx => ?_, hkept⟩, fun x hx => ?_⟩
      · have hne : x.timestamp ≠ e.timestamp := fun he => hnew x hx (he ▸ List.mem_cons_self)
        have hmem : x ∈ events :=
          (dedupFrom_perm (e.timestamp :: seen) events).subset (List.mem_append_left _ hx)
        have hle := hfirst x hmem
        omega
      · rcases List.mem_cons.mp hx with rfl | hx
        · exact hseen
        · exact fun hm => hnew x hx (List.mem_cons_of_mem _ hm)

theorem dedupedEvents_increasing (events : List CandleEvent) :
    (dedupedEvents events).1.Pairwise fun a b => a.timestamp < b.timestamp := by
  have htotal : Std.Total fun a b : CandleEvent => a.timestamp ≤ b.timestamp :=
    ⟨fun a b => le_total a.timestamp b.timestamp⟩
  have htrans : IsTrans CandleEvent fun a b => a.timestamp ≤ b.timestamp :=
    ⟨fun _ _ _ h h' => le_trans h h'⟩
  exact (dedupFrom_increasing (List.pairwise_insertionSort _ events)).1

end Quantive.WsSharding
