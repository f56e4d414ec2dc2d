import Quantive.Json.Value

/-!
# Values in a `jsonb` column

The column keeps exact decimals and its own order of keys. A value that was stored and read again
has the canonical form it had before exactly when each of its floats survives.
-/

namespace Quantive.Json

/-- The order of keys in the column: shorter keys first, then bytewise. -/
def jsonbLe (p q : String × Json) : Prop :=
  p.1.utf8ByteSize < q.1.utf8ByteSize ∨ p.1.utf8ByteSize = q.1.utf8ByteSize ∧ p.1 ≤ q.1

instance (p q : String × Json) : Decidable (jsonbLe p q) :=
  inferInstanceAs (Decidable (_ ∨ _ ∧ _))

def jsonbKeys (fields : Fields) : Fields := fields.insertionSort jsonbLe

mutual

/-- A value that was stored and read again. -/
def reread : Json → Json
  | number n => number n.reread
  | arr items => arr (rereadItems items)
  | obj fields => obj (jsonbKeys (rereadFields fields))
  | null => null
  | bool b => bool b
  | str s => str s

def rereadItems : List Json → List Json
  | [] => []
  | j :: rest => reread j :: rereadItems rest

def rereadFields : Fields → Fields
  | [] => []
  | (key, j) :: rest => (key, reread j) :: rereadFields rest

end

/-- The column has no null character. -/
def storableText (s : String) : Bool := s.toList.all fun c => c.toNat != 0

mutual

def storable : Json → Bool
  | str s => storableText s
  | arr items => storableItems items
  | obj fields => storableFields fields
  | _ => true

def storableItems : List Json → Bool
  | [] => true
  | j :: rest => storable j && storableItems rest

def storableFields : Fields → Bool
  | [] => true
  | (key, j) :: rest => storableText key && storable j && storableFields rest

end

/-- A float that the column shows as a float of the same sign. -/
def SurvivingNumber : Number → Prop
  | .int _ => True
  | .float f => ¬ f.NegativeZero ∧ ¬ f.Large

mutual

def Survives : Json → Prop
  | number n => SurvivingNumber n
  | arr items => SurvivingItems items
  | obj fields => SurvivingFields fields
  | _ => True

def SurvivingItems : List Json → Prop
  | [] => True
  | j :: rest => Survives j ∧ SurvivingItems rest

def SurvivingFields : Fields → Prop
  | [] => True
  | (_, j) :: rest => Survives j ∧ SurvivingFields rest

end

/-! ### Fields -/

theorem jsonbKeys_perm (fields : Fields) : (jsonbKeys fields).Perm fields :=
  List.perm_insertionSort _ _

theorem rereadFields_eq (fields : Fields) :
    rereadFields fields = fields.map fun p => (p.1, reread p.2) := by
  induction fields with
  | nil => rfl
  | cons p rest ih =>
    rw [rereadFields, ih]
    rfl

theorem rereadItems_eq (items : List Json) : rereadItems items = items.map reread := by
  induction items with
  | nil => rfl
  | cons j rest ih =>
    rw [rereadItems, ih]
    rfl

theorem keys_rereadFields (fields : Fields) :
    (rereadFields fields).map (·.1) = fields.map (·.1) := by
  rw [rereadFields_eq, List.map_map]
  rfl

/-- Fields with the same keys in the same order are equal when they are the same fields. -/
theorem perm_iff_eq {fields fields' : Fields} (hnodup : (fields.map (·.1)).Nodup)
    (hkeys : fields'.map (·.1) = fields.map (·.1)) : fields'.Perm fields ↔ fields' = fields := by
  constructor
  · intro h
    refine List.ext_getElem h.length_eq fun k hk hk' => ?_
    have hkey : fields'[k].1 = fields[k].1 := by
      have hmap : (fields'.map (·.1))[k]? = (fields.map (·.1))[k]? := by rw [hkeys]
      rw [List.getElem?_map, List.getElem?_map, List.getElem?_eq_getElem hk,
        List.getElem?_eq_getElem hk'] at hmap
      exact Option.some.inj hmap
    exact eq_of_key hnodup (h.subset (List.getElem_mem hk)) (List.getElem_mem hk') hkey
  · rintro rfl
    exact List.Perm.refl _

theorem survivingNumber_iff (n : Number) : n.reread = n ↔ SurvivingNumber n := by
  cases n with
  | int z => exact ⟨fun _ => trivial, fun _ => reread_int z⟩
  | float f => exact PyFloat.reread_iff

mutual

/-- Storing keeps the canonical form of a value exactly when each float survives. -/
theorem canonicalize_reread_iff (j : Json) (h : WellFormed j) :
    canonicalize (reread j) = canonicalize j ↔ Survives j := by
  cases j with
  | number n =>
    show number n.reread = number n ↔ _
    rw [number.injEq]
    exact survivingNumber_iff n
  | arr items =>
    rw [reread, canonicalize, canonicalize, arr.injEq]
    exact canonicalizeItems_reread_iff items h
  | obj fields =>
    have hkeys : (canonicalizeFields (rereadFields fields)).map (·.1) =
        (canonicalizeFields fields).map (·.1) := by
      rw [keys_canonicalizeFields, keys_rereadFields, keys_canonicalizeFields]
    have hnodup : ((canonicalizeFields fields).map (·.1)).Nodup := by
      rw [keys_canonicalizeFields]
      exact h.1
    have hperm : (canonicalizeFields (jsonbKeys (rereadFields fields))).Perm
        (canonicalizeFields (rereadFields fields)) := by
      rw [canonicalizeFields_eq, canonicalizeFields_eq]
      exact (jsonbKeys_perm _).map _
    have hnodup' : ((canonicalizeFields (jsonbKeys (rereadFields fields))).map (·.1)).Nodup := by
      rw [(hperm.map _).nodup_iff, hkeys]
      exact hnodup
    rw [reread, canonicalize, canonicalize, obj.injEq, sortKeys_eq_iff hnodup']
    calc (canonicalizeFields (jsonbKeys (rereadFields fields))).Perm (canonicalizeFields fields)
        ↔ (canonicalizeFields (rereadFields fields)).Perm (canonicalizeFields fields) :=
          ⟨hperm.symm.trans, hperm.trans⟩
      _ ↔ canonicalizeFields (rereadFields fields) = canonicalizeFields fields :=
          perm_iff_eq hnodup hkeys
      _ ↔ SurvivingFields fields := canonicalizeFields_reread_iff fields h.2
  | null => simp [reread, Survives]
  | bool b => simp [reread, Survives]
  | str s => simp [reread, Survives]

theorem canonicalizeItems_reread_iff (items : List Json) (h : WellFormedItems items) :
    canonicalizeItems (rereadItems items) = canonicalizeItems items ↔ SurvivingItems items := by
  cases items with
  | nil => simp [rereadItems, SurvivingItems]
  | cons j rest =>
    rw [rereadItems, canonicalizeItems, canonicalizeItems, List.cons.injEq, SurvivingItems,
      canonicalize_reread_iff j h.1, canonicalizeItems_reread_iff rest h.2]

theorem canonicalizeFields_reread_iff (fields : Fields) (h : WellFormedFields fields) :
    canonicalizeFields (rereadFields fields) = canonicalizeFields fields ↔
      SurvivingFields fields := by
  cases fields with
  | nil => simp [rereadFields, SurvivingFields]
  | cons p rest =>
    obtain ⟨key, j⟩ := p
    rw [rereadFields, canonicalizeFields, canonicalizeFields, List.cons.injEq, Prod.mk.injEq,
      SurvivingFields, canonicalize_reread_iff j h.1, canonicalizeFields_reread_iff rest h.2]
    exact and_congr_left fun _ => and_iff_right rfl

end

/-! ### Well-formed values -/

mutual

theorem wellFormed_reread (j : Json) (h : WellFormed j) : WellFormed (reread j) := by
  cases j with
  | arr items => exact wellFormed_rereadItems items h
  | obj fields =>
    have hperm := jsonbKeys_perm (rereadFields fields)
    refine ⟨?_, ?_⟩
    · rw [(hperm.map _).nodup_iff, keys_rereadFields]
      exact h.1
    · rw [wellFormedFields_iff]
      intro p hp
      exact wellFormedFields_iff.mp (wellFormed_rereadFields fields h.2) p (hperm.subset hp)
  | _ => trivial

theorem wellFormed_rereadItems (items : List Json) (h : WellFormedItems items) :
    WellFormedItems (rereadItems items) := by
  cases items with
  | nil => trivial
  | cons j rest => exact ⟨wellFormed_reread j h.1, wellFormed_rereadItems rest h.2⟩

theorem wellFormed_rereadFields (fields : Fields) (h : WellFormedFields fields) :
    WellFormedFields (rereadFields fields) := by
  cases fields with
  | nil => trivial
  | cons p rest => exact ⟨wellFormed_reread p.2 h.1, wellFormed_rereadFields rest h.2⟩

end

mutual

/-- Sorting keys changes no float. -/
theorem survives_canonicalize (j : Json) : Survives (canonicalize j) ↔ Survives j := by
  cases j with
  | arr items => exact survivingItems_canonicalize items
  | obj fields =>
    have hfields := survivingFields_canonicalize fields
    have hall : ∀ fs : Fields, SurvivingFields fs ↔ ∀ p ∈ fs, Survives p.2 := by
      intro fs
      induction fs with
      | nil => simp [SurvivingFields]
      | cons p rest ih => rw [SurvivingFields, ih, List.forall_mem_cons]
    have hsort : SurvivingFields (sortKeys (canonicalizeFields fields)) ↔
        SurvivingFields (canonicalizeFields fields) := by
      rw [hall, hall]
      exact forall_congr' fun p => by rw [(sortKeys_perm _).mem_iff]
    exact hsort.trans hfields
  | _ => rfl

theorem survivingItems_canonicalize (items : List Json) :
    SurvivingItems (canonicalizeItems items) ↔ SurvivingItems items := by
  cases items with
  | nil => rfl
  | cons j rest =>
    rw [canonicalizeItems, SurvivingItems, SurvivingItems, survives_canonicalize j,
      survivingItems_canonicalize rest]

theorem survivingFields_canonicalize (fields : Fields) :
    SurvivingFields (canonicalizeFields fields) ↔ SurvivingFields fields := by
  cases fields with
  | nil => rfl
  | cons p rest =>
    obtain ⟨key, j⟩ := p
    rw [canonicalizeFields, SurvivingFields, SurvivingFields, survives_canonicalize j,
      survivingFields_canonicalize rest]

end

mutual

instance decidableWellFormed (j : Json) : Decidable (WellFormed j) :=
  match j with
  | arr items => decidableWellFormedItems items
  | obj fields =>
    have := decidableWellFormedFields fields
    inferInstanceAs (Decidable ((fields.map (·.1)).Nodup ∧ WellFormedFields fields))
  | null => .isTrue trivial
  | bool _ => .isTrue trivial
  | number _ => .isTrue trivial
  | str _ => .isTrue trivial

def decidableWellFormedItems (items : List Json) : Decidable (WellFormedItems items) :=
  match items with
  | [] => .isTrue trivial
  | j :: rest =>
    have := decidableWellFormed j
    have := decidableWellFormedItems rest
    inferInstanceAs (Decidable (WellFormed j ∧ WellFormedItems rest))

def decidableWellFormedFields (fields : Fields) : Decidable (WellFormedFields fields) :=
  match fields with
  | [] => .isTrue trivial
  | (_, j) :: rest =>
    have := decidableWellFormed j
    have := decidableWellFormedFields rest
    inferInstanceAs (Decidable (WellFormed j ∧ WellFormedFields rest))

end

end Quantive.Json
