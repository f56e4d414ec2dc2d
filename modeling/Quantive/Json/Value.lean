import Mathlib.Data.List.Forall2
import Mathlib.Data.List.Sort
import Mathlib.Data.String.Basic
import Quantive.Json.Number

/-!
# JSON values

Values with typed numbers; an object keeps the order of its keys. `canonicalize` sorts the keys of
every object, and two values have one canonical form exactly when they are the same up to the
order of keys.
-/

namespace Quantive

inductive Json where
  | null
  | bool (b : Bool)
  | number (n : Number)
  | str (s : String)
  | arr (items : List Json)
  | obj (fields : List (String × Json))

namespace Json

abbrev Fields := List (String × Json)

def sortKeys (fields : Fields) : Fields := fields.insertionSort fun p q => p.1 ≤ q.1

mutual

/-- Sorted keys, at every depth. -/
def canonicalize : Json → Json
  | arr items => arr (canonicalizeItems items)
  | obj fields => obj (sortKeys (canonicalizeFields fields))
  | j => j

def canonicalizeItems : List Json → List Json
  | [] => []
  | j :: rest => canonicalize j :: canonicalizeItems rest

def canonicalizeFields : Fields → Fields
  | [] => []
  | (key, j) :: rest => (key, canonicalize j) :: canonicalizeFields rest

end

/-- An int is no float. -/
def sameNumber (eqFloat : PyFloat → PyFloat → Bool) : Number → Number → Bool
  | .int z, .int z' => z = z'
  | .float f, .float f' => eqFloat f f'
  | _, _ => false

mutual

/-- Equality of values with their types, up to the order of keys; `eqFloat` compares floats. -/
def same (eqFloat : PyFloat → PyFloat → Bool) : Json → Json → Bool
  | null, null => true
  | bool b, bool b' => b = b'
  | number n, number n' => sameNumber eqFloat n n'
  | str s, str s' => s = s'
  | arr items, arr items' => sameItems eqFloat items items'
  | obj fields, obj fields' => fields.length = fields'.length && sameFields eqFloat fields fields'
  | _, _ => false

def sameItems (eqFloat : PyFloat → PyFloat → Bool) : List Json → List Json → Bool
  | [], [] => true
  | j :: rest, j' :: rest' => same eqFloat j j' && sameItems eqFloat rest rest'
  | _, _ => false

/-- Every field is one of `fields'`. -/
def sameFields (eqFloat : PyFloat → PyFloat → Bool) : Fields → Fields → Bool
  | [], _ => true
  | (key, j) :: rest, fields' =>
    (fields'.lookup key).any (fun j' => same eqFloat j j') && sameFields eqFloat rest fields'

end

mutual

/-- An object has a key once. -/
def WellFormed : Json → Prop
  | arr items => WellFormedItems items
  | obj fields => (fields.map (·.1)).Nodup ∧ WellFormedFields fields
  | _ => True

def WellFormedItems : List Json → Prop
  | [] => True
  | j :: rest => WellFormed j ∧ WellFormedItems rest

def WellFormedFields : Fields → Prop
  | [] => True
  | (_, j) :: rest => WellFormed j ∧ WellFormedFields rest

end

/-! ### Fields -/

section
variable {fields fields' : Fields} {key : String} {j : Json}

theorem canonicalizeFields_eq (fields : Fields) :
    canonicalizeFields fields = fields.map fun p => (p.1, canonicalize p.2) := by
  induction fields with
  | nil => rfl
  | cons p rest ih =>
    rw [canonicalizeFields, ih]
    rfl

theorem canonicalizeItems_eq (items : List Json) :
    canonicalizeItems items = items.map canonicalize := by
  induction items with
  | nil => rfl
  | cons j rest ih =>
    rw [canonicalizeItems, ih]
    rfl

theorem wellFormedFields_iff : WellFormedFields fields ↔ ∀ p ∈ fields, WellFormed p.2 := by
  induction fields with
  | nil => simp [WellFormedFields]
  | cons p rest ih =>
    rw [WellFormedFields, ih, List.forall_mem_cons]

theorem wellFormedItems_iff {items : List Json} :
    WellFormedItems items ↔ ∀ j ∈ items, WellFormed j := by
  induction items with
  | nil => simp [WellFormedItems]
  | cons j rest ih => rw [WellFormedItems, ih, List.forall_mem_cons]

theorem keys_canonicalizeFields (fields : Fields) :
    (canonicalizeFields fields).map (·.1) = fields.map (·.1) := by
  rw [canonicalizeFields_eq, List.map_map]
  rfl

theorem mem_of_lookup (h : fields.lookup key = some j) : (key, j) ∈ fields := by
  obtain ⟨l₁, l₂, rfl, _⟩ := List.lookup_eq_some_iff.mp h
  exact List.mem_append_right _ List.mem_cons_self

theorem lookup_of_mem (hnodup : (fields.map (·.1)).Nodup) (h : (key, j) ∈ fields) :
    fields.lookup key = some j := by
  induction fields with
  | nil => cases h
  | cons p rest ih =>
    rw [List.map_cons, List.nodup_cons] at hnodup
    rcases List.mem_cons.mp h with rfl | hrest
    · exact List.lookup_cons_self
    · have hmem : key ∈ rest.map (·.1) := List.mem_map_of_mem (f := fun q => q.1) hrest
      have hne : p.1 ≠ key := fun heq => hnodup.1 (heq ▸ hmem)
      obtain ⟨k, v⟩ := p
      rw [List.lookup_cons, beq_eq_false_iff_ne.mpr (Ne.symm hne)]
      exact ih hnodup.2 hrest

/-- The field of a key is all that a list of fields says of it. -/
theorem eq_of_key (hnodup : (fields.map (·.1)).Nodup) {p q : String × Json} (hp : p ∈ fields)
    (hq : q ∈ fields) (h : p.1 = q.1) : p = q := by
  have hlookup : fields.lookup p.1 = some p.2 := lookup_of_mem hnodup hp
  have hlookup' : fields.lookup q.1 = some q.2 := lookup_of_mem hnodup hq
  rw [h, hlookup'] at hlookup
  exact Prod.ext h (Option.some.inj hlookup).symm

instance : Std.Total (α := String × Json) fun p q => p.1 ≤ q.1 := ⟨fun p q => le_total p.1 q.1⟩
instance : IsTrans (String × Json) fun p q => p.1 ≤ q.1 := ⟨fun _ _ _ h h' => le_trans h h'⟩

theorem sortKeys_perm (fields : Fields) : (sortKeys fields).Perm fields :=
  List.perm_insertionSort _ _

theorem sortKeys_sorted (fields : Fields) : (sortKeys fields).Pairwise fun p q => p.1 ≤ q.1 :=
  List.pairwise_insertionSort _ _

/-- Sorting forgets the order of the fields, and nothing else. -/
theorem sortKeys_eq_iff (hnodup : (fields.map (·.1)).Nodup) :
    sortKeys fields = sortKeys fields' ↔ fields.Perm fields' := by
  constructor
  · intro h
    have hperm := sortKeys_perm fields
    rw [h] at hperm
    exact hperm.symm.trans (sortKeys_perm fields')
  · intro h
    have hperm : (sortKeys fields).Perm (sortKeys fields') :=
      (sortKeys_perm fields).trans (h.trans (sortKeys_perm fields').symm)
    refine hperm.eq_of_pairwise (fun p q hp hq hle hle' => ?_) (sortKeys_sorted _)
      (sortKeys_sorted _)
    refine eq_of_key hnodup ((sortKeys_perm fields).subset hp) ?_ (le_antisymm hle hle')
    exact (h.symm.subset ((sortKeys_perm fields').subset hq))

theorem canonicalizeFields_sortKeys (fields : Fields) :
    canonicalizeFields (sortKeys fields) = sortKeys (canonicalizeFields fields) := by
  rw [canonicalizeFields_eq, canonicalizeFields_eq, sortKeys, sortKeys]
  exact List.map_insertionSort _ _ _ _ fun _ _ _ _ => Iff.rfl

theorem perm_canonicalizeFields (hnodup : (fields.map (·.1)).Nodup) :
    (canonicalizeFields fields).Perm (canonicalizeFields fields') ↔
      fields.length = fields'.length ∧ ∀ p ∈ fields, ∃ j', (p.1, j') ∈ fields' ∧
        canonicalize p.2 = canonicalize j' := by
  have hlength : ∀ fs : Fields, (canonicalizeFields fs).length = fs.length := by
    intro fs
    rw [canonicalizeFields_eq, List.length_map]
  constructor
  · intro h
    refine ⟨by rw [← hlength fields, ← hlength fields', h.length_eq], fun p hp => ?_⟩
    have hmem : (p.1, canonicalize p.2) ∈ canonicalizeFields fields := by
      rw [canonicalizeFields_eq]
      exact List.mem_map_of_mem (f := fun q => (q.1, canonicalize q.2)) hp
    rw [h.mem_iff, canonicalizeFields_eq] at hmem
    obtain ⟨q, hq, heq⟩ := List.mem_map.mp hmem
    obtain ⟨hkey, hvalue⟩ := Prod.mk.inj heq
    exact ⟨q.2, by rw [← hkey]; exact hq, hvalue.symm⟩
  · rintro ⟨hlen, hfields⟩
    have hsubset : canonicalizeFields fields ⊆ canonicalizeFields fields' := by
      intro q hq
      rw [canonicalizeFields_eq] at hq ⊢
      obtain ⟨p, hp, rfl⟩ := List.mem_map.mp hq
      obtain ⟨j', hj', heq⟩ := hfields p hp
      exact List.mem_map.mpr ⟨(p.1, j'), hj', by rw [heq]⟩
    have hdistinct : (canonicalizeFields fields).Nodup := by
      refine List.Nodup.of_map (·.1) ?_
      rwa [keys_canonicalizeFields]
    refine (List.subperm_of_subset hdistinct hsubset).perm_of_length_le ?_
    rw [hlength, hlength, hlen]

end

/-! ### Sameness of records -/

section
variable {E : PyFloat → PyFloat → Bool}

theorem sameItems_iff {items items' : List Json} :
    sameItems E items items' = true ↔
      List.Forall₂ (fun j j' => same E j j' = true) items items' := by
  induction items generalizing items' with
  | nil => cases items' <;> simp [sameItems]
  | cons j rest ih =>
    cases items' with
    | nil => simp [sameItems]
    | cons j' rest' => rw [sameItems, Bool.and_eq_true, List.forall₂_cons, ih]

theorem sameFields_zip {keys : List String} (hkeys : keys.Nodup) {vs ws : List Json}
    (hv : vs.length = keys.length) (hw : ws.length = keys.length) (before : Fields)
    (hbefore : ∀ p ∈ before, p.1 ∉ keys) :
    sameFields E (keys.zip vs) (before ++ keys.zip ws) = true ↔
      List.Forall₂ (fun j j' => same E j j' = true) vs ws := by
  induction keys generalizing vs ws before with
  | nil =>
    rw [List.length_eq_zero_iff.mp hv, List.length_eq_zero_iff.mp hw]
    simp [sameFields]
  | cons key keys ih =>
    obtain ⟨v, vs, rfl⟩ := List.exists_cons_of_length_eq_add_one hv
    obtain ⟨w, ws, rfl⟩ := List.exists_cons_of_length_eq_add_one hw
    obtain ⟨hkey, hrest⟩ := List.nodup_cons.mp hkeys
    have hnone : before.lookup key = none := by
      rw [List.lookup_eq_none_iff]
      intro p hp
      have hne : p.1 ≠ key := fun heq => hbefore p hp (heq ▸ List.mem_cons_self)
      simpa using hne.symm
    have hlookup : (before ++ (key, w) :: keys.zip ws).lookup key = some w := by
      rw [List.lookup_append, hnone, List.lookup_cons_self]
      rfl
    have hafter : before ++ (key, w) :: keys.zip ws = (before ++ [(key, w)]) ++ keys.zip ws := by
      rw [List.append_assoc]
      rfl
    rw [List.zip_cons_cons, List.zip_cons_cons, sameFields, hlookup, Option.any_some,
      Bool.and_eq_true, List.forall₂_cons, hafter]
    refine and_congr_right fun _ => ih hrest (Nat.succ.inj hv) (Nat.succ.inj hw) _ ?_
    intro p hp
    rcases List.mem_append.mp hp with hp | hp
    · exact fun hmem => hbefore p hp (List.mem_cons_of_mem _ hmem)
    · rw [List.mem_singleton.mp hp]
      exact hkey

/-- Records with the same keys are the same exactly when their values are. -/
theorem same_record {keys : List String} (hkeys : keys.Nodup) (vs ws : List Json)
    (hv : vs.length = keys.length) (hw : ws.length = keys.length) :
    same E (obj (keys.zip vs)) (obj (keys.zip ws)) = true ↔
      List.Forall₂ (fun j j' => same E j j' = true) vs ws := by
  have hlength : (keys.zip vs).length = (keys.zip ws).length := by
    rw [List.length_zip, List.length_zip, hv, hw]
  rw [same, hlength, decide_eq_true rfl, Bool.true_and]
  exact sameFields_zip hkeys hv hw [] (fun p hp => by cases hp)

end

/-! ### Sameness and canonical forms -/

/-- Floats compared with their sign, also at zero. -/
def exactly (f g : PyFloat) : Bool := f = g

section
variable {fields' : Fields}

mutual

theorem canonicalize_eq_iff (j j' : Json) (h : WellFormed j) (h' : WellFormed j') :
    canonicalize j = canonicalize j' ↔ same exactly j j' = true := by
  cases j with
  | arr items =>
    cases j' with
    | arr items' =>
      rw [canonicalize, canonicalize, same, Json.arr.injEq]
      exact canonicalizeItems_eq_iff items items' h h'
    | _ => simp [canonicalize, same]
  | obj fields =>
    cases j' with
    | obj fields' =>
      have hkeys : ((canonicalizeFields fields).map (·.1)).Nodup := by
        rw [keys_canonicalizeFields]
        exact h.1
      rw [canonicalize, canonicalize, same, Json.obj.injEq, sortKeys_eq_iff hkeys,
        perm_canonicalizeFields h.1, Bool.and_eq_true, decide_eq_true_eq,
        ← sameFields_iff fields fields' h.2 h'.1 h'.2]
    | _ => simp [canonicalize, same]
  | number n =>
    cases j' with
    | number n' =>
      rw [canonicalize, canonicalize, same, Json.number.injEq]
      · cases n <;> cases n' <;> simp [sameNumber, exactly]
      all_goals simp
    | _ => simp [canonicalize, same]
  | null => cases j' <;> simp [canonicalize, same]
  | bool b => cases j' <;> simp [canonicalize, same]
  | str s => cases j' <;> simp [canonicalize, same]

theorem canonicalizeItems_eq_iff (items items' : List Json) (h : WellFormedItems items)
    (h' : WellFormedItems items') :
    canonicalizeItems items = canonicalizeItems items' ↔ sameItems exactly items items' = true := by
  cases items with
  | nil => cases items' <;> simp [canonicalizeItems, sameItems]
  | cons j rest =>
    cases items' with
    | nil => simp [canonicalizeItems, sameItems]
    | cons j' rest' =>
      rw [canonicalizeItems, canonicalizeItems, sameItems, List.cons.injEq, Bool.and_eq_true,
        canonicalize_eq_iff j j' h.1 h'.1, canonicalizeItems_eq_iff rest rest' h.2 h'.2]

theorem sameFields_iff (fields fields' : Fields) (h : WellFormedFields fields)
    (hnodup : (fields'.map (·.1)).Nodup) (h' : WellFormedFields fields') :
    (∀ p ∈ fields, ∃ j', (p.1, j') ∈ fields' ∧ canonicalize p.2 = canonicalize j') ↔
      sameFields exactly fields fields' = true := by
  cases fields with
  | nil => simp [sameFields]
  | cons p rest =>
    obtain ⟨key, j⟩ := p
    rw [List.forall_mem_cons, sameFields, Bool.and_eq_true,
      sameFields_iff rest fields' h.2 hnodup h', Option.any_eq_true]
    refine and_congr_left fun _ => ⟨fun hfield => ?_, fun hfield => ?_⟩
    · obtain ⟨j', hmem, heq⟩ := hfield
      have hj' := wellFormedFields_iff.mp h' _ hmem
      exact ⟨j', lookup_of_mem hnodup hmem, (canonicalize_eq_iff j j' h.1 hj').mp heq⟩
    · obtain ⟨j', hlookup, hsame⟩ := hfield
      have hmem := mem_of_lookup hlookup
      have hj' := wellFormedFields_iff.mp h' _ hmem
      exact ⟨j', hmem, (canonicalize_eq_iff j j' h.1 hj').mpr hsame⟩

end

mutual

theorem canonicalize_canonicalize (j : Json) :
    canonicalize (canonicalize j) = canonicalize j := by
  cases j with
  | arr items =>
    rw [canonicalize, canonicalize, canonicalizeItems_twice items]
  | obj fields =>
    rw [canonicalize, canonicalize, canonicalizeFields_sortKeys, canonicalizeFields_twice fields]
    refine congrArg Json.obj ((sortKeys_sorted _).insertionSort_eq)
  | _ => rfl

theorem canonicalizeItems_twice (items : List Json) :
    canonicalizeItems (canonicalizeItems items) = canonicalizeItems items := by
  cases items with
  | nil => rfl
  | cons j rest =>
    rw [canonicalizeItems, canonicalizeItems, canonicalize_canonicalize j,
      canonicalizeItems_twice rest]

theorem canonicalizeFields_twice (fields : Fields) :
    canonicalizeFields (canonicalizeFields fields) = canonicalizeFields fields := by
  cases fields with
  | nil => rfl
  | cons p rest =>
    obtain ⟨key, j⟩ := p
    rw [canonicalizeFields, canonicalizeFields, canonicalize_canonicalize j,
      canonicalizeFields_twice rest]

end

mutual

theorem wellFormed_canonicalize (j : Json) (h : WellFormed j) : WellFormed (canonicalize j) := by
  cases j with
  | arr items => exact wellFormed_canonicalizeItems items h
  | obj fields =>
    have hperm := sortKeys_perm (canonicalizeFields fields)
    refine ⟨?_, ?_⟩
    · rw [(hperm.map _).nodup_iff, keys_canonicalizeFields]
      exact h.1
    · rw [wellFormedFields_iff]
      intro p hp
      exact wellFormedFields_iff.mp (wellFormed_canonicalizeFields fields h.2) p
        (hperm.subset hp)
  | _ => exact h

theorem wellFormed_canonicalizeItems (items : List Json) (h : WellFormedItems items) :
    WellFormedItems (canonicalizeItems items) := by
  cases items with
  | nil => trivial
  | cons j rest =>
    exact ⟨wellFormed_canonicalize j h.1, wellFormed_canonicalizeItems rest h.2⟩

theorem wellFormed_canonicalizeFields (fields : Fields) (h : WellFormedFields fields) :
    WellFormedFields (canonicalizeFields fields) := by
  cases fields with
  | nil => trivial
  | cons p rest =>
    exact ⟨wellFormed_canonicalize p.2 h.1, wellFormed_canonicalizeFields rest h.2⟩

end

end
end Json
end Quantive
