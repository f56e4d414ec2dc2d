import Quantive.Backtests.Columns

/-!
# Rules of columns

What a column takes and what it keeps, and where an IntegrityError can come from.
-/

namespace Quantive.Backtests

theorem column_bind_iff {α β : Type} {x : Except ColumnError α} {k : α → Except ColumnError β} {b : β} :
    (x >>= k) = .ok b ↔ ∃ a, x = .ok a ∧ k a = .ok b := by
  cases x with
  | error e => exact iff_of_false (fun h => by cases h) fun ⟨a, ha, _⟩ => by cases ha
  | ok a => exact ⟨fun h => ⟨a, rfl, h⟩, fun ⟨a', ha', h⟩ => by cases ha'; exact h⟩

theorem column_pure_iff {α : Type} {a b : α} : (pure a : Except ColumnError α) = .ok b ↔ b = a :=
  ⟨fun h => (Except.ok.inj h).symm, fun h => congrArg Except.ok h.symm⟩

theorem ensure_iff {holds : Prop} [Decidable holds] {e : ColumnError} {u : Unit} :
    ensure holds e = .ok u ↔ holds := by
  unfold ensure
  by_cases h : holds
  · rw [if_pos h]
    exact iff_of_true rfl h
  · rw [if_neg h]
    exact iff_of_false (fun hok => by cases hok) h

theorem insertRow_iff {α : Type} {columns : Except ColumnError α} {constraints : α → Prop}
    [DecidablePred constraints] {v : α} :
    insertRow columns constraints = .ok v ↔ columns = .ok v ∧ constraints v := by
  unfold insertRow
  simp only [column_bind_iff, ensure_iff, column_pure_iff, exists_const]
  constructor
  · rintro ⟨w, hw, hc, rfl⟩
    exact ⟨hw, hc⟩
  · rintro ⟨hv, hc⟩
    exact ⟨v, hv, hc, rfl⟩

/-- It raises no IntegrityError. -/
def DataOnly {α : Type} (x : Except ColumnError α) : Prop := x ≠ .error .integrity

theorem dataOnly_bind {α β : Type} {x : Except ColumnError α} {k : α → Except ColumnError β} :
    DataOnly (x >>= k) ↔ DataOnly x ∧ ∀ a, x = .ok a → DataOnly (k a) := by
  cases x with
  | error e =>
    cases e with
    | data => exact iff_of_true (fun h => by cases h) ⟨fun h => by (cases h), fun a ha => by (cases ha)⟩
    | integrity => exact iff_of_false (fun h => h rfl) fun h => h.1 rfl
  | ok a =>
    refine ⟨fun h => ⟨fun he => by (cases he), fun b hb => ?_⟩, fun h => h.2 a rfl⟩
    cases hb
    exact h

theorem column_bind_error {α β : Type} {x : Except ColumnError α} {k : α → Except ColumnError β}
    {e : ColumnError} (h : (x >>= k) = .error e) : x = .error e ∨ ∃ a, x = .ok a ∧ k a = .error e := by
  cases x with
  | error e' =>
    cases h
    exact .inl rfl
  | ok a => exact .inr ⟨a, rfl, h⟩

theorem dataOnly_pure {α : Type} (a : α) : DataOnly (pure a : Except ColumnError α) := fun h => by cases h

theorem dataOnly_ensure (holds : Prop) [Decidable holds] : DataOnly (ensure holds .data) := by
  unfold ensure
  split <;> exact fun h => by cases h

/-- A DataError is of a column, and an IntegrityError of a constraint on what the columns hold. -/
theorem insertRow_error {α : Type} {columns : Except ColumnError α} {constraints : α → Prop}
    [DecidablePred constraints] {e : ColumnError} (hcolumns : DataOnly columns)
    (h : insertRow columns constraints = .error e) :
    e = .data ∧ (∀ v, columns ≠ .ok v) ∨ e = .integrity ∧ ∃ v, columns = .ok v ∧ ¬ constraints v := by
  cases hv : columns with
  | error e' =>
    rw [hv] at h
    cases h
    cases e with
    | data => exact .inl ⟨rfl, fun v hok => by cases hok⟩
    | integrity => exact absurd hv hcolumns
  | ok v =>
    have hfails : ¬ constraints v := fun hc => by
      rw [insertRow_iff.mpr ⟨hv, hc⟩] at h
      cases h
    rw [hv, insertRow] at h
    simp only [bind, Except.bind, ensure, if_neg hfails, Except.error.injEq] at h
    exact .inr ⟨h.symm, v, rfl, hfails⟩

theorem integerColumn_iff {n m : ℤ} :
    integerColumn n = .ok m ↔ (-2 ^ 31 ≤ n ∧ n < 2 ^ 31) ∧ m = n := by
  unfold integerColumn
  simp only [column_bind_iff, ensure_iff, column_pure_iff, exists_const]

theorem textColumn_iff {maxLength : ℕ} {s t : String} :
    textColumn maxLength s = .ok t ↔ (Json.storableText s = true ∧ s.length ≤ maxLength) ∧ t = s := by
  unfold textColumn
  simp only [column_bind_iff, ensure_iff, column_pure_iff, exists_const]

theorem jsonColumn_iff {j k : Json} : jsonColumn j = .ok k ↔ j.storable = true ∧ k = j.reread := by
  unfold jsonColumn
  simp only [column_bind_iff, ensure_iff, column_pure_iff, exists_const]

/-- At most `s` digits behind the point. -/
def Places (s : ℕ) (q : ℚ) : Prop := ∃ z : ℤ, q * 10 ^ s = z

/-- The last place of a value that has no more is the value. -/
theorem roundPlaces_eq {s : ℕ} {q : ℚ} {z : ℤ} (hz : q * 10 ^ s = z) : roundPlaces s q = z := by
  have hhalf (w : ℤ) : ⌊(w : ℚ) + 1 / 2⌋ = w := by
    rw [Int.floor_intCast_add]
    norm_num
  unfold roundPlaces
  split
  · rw [hz]
    exact hhalf z
  · rw [neg_mul, hz, ← Int.cast_neg, hhalf]
    exact neg_neg z

theorem numericColumn_iff {s : ℕ} (hs : s ≤ 24) {d : Dec} {q : ℚ} (h : Places s d.value) :
    numericColumn s d = .ok q ↔ |d.value| < 10 ^ (24 - s) ∧ q = d.value := by
  obtain ⟨z, hz⟩ := h
  have hten : (0 : ℚ) < 10 ^ s := by positivity
  have hbound : |z| < 10 ^ 24 ↔ |d.value| < 10 ^ (24 - s) := by
    have habs : |d.value| * 10 ^ s = |z| := by
      rw [Int.cast_abs, ← hz, abs_mul, abs_of_pos hten]
    have hpow : (10 : ℚ) ^ (24 - s) * 10 ^ s = 10 ^ 24 := by
      rw [← pow_add]
      congr 1
      omega
    rw [← mul_lt_mul_iff_of_pos_right hten, habs, hpow]
    exact_mod_cast Iff.rfl
  have hvalue : (z : ℚ) / 10 ^ s = d.value := by rw [← hz, mul_div_cancel_right₀ _ hten.ne']
  unfold numericColumn
  simp only [column_bind_iff, ensure_iff, column_pure_iff, exists_const, roundPlaces_eq hz, hvalue, hbound]

theorem amountColumn_iff {d : Dec} {q : ℚ} (h : Places 8 d.value) :
    amountColumn d = .ok q ↔ |d.value| < 10 ^ 16 ∧ q = d.value := numericColumn_iff (by decide) h

theorem ratioColumn_iff {d : Dec} {q : ℚ} (h : Places 12 d.value) :
    ratioColumn d = .ok q ↔ |d.value| < 10 ^ 12 ∧ q = d.value := numericColumn_iff (by decide) h

theorem nullable_iff {α β : Type} {column : α → Except ColumnError β} {P : α → Prop} {f : α → β}
    {o : Option α} {p : Option β} (h : ∀ a ∈ o, ∀ b, column a = .ok b ↔ P a ∧ b = f a) :
    nullable column o = .ok p ↔ (∀ a ∈ o, P a) ∧ p = o.map f := by
  cases o with
  | none => simp [nullable, eq_comm]
  | some a =>
    have ha := h a rfl
    cases hc : column a with
    | error e =>
      have hbad : ¬ P a := fun hP => by
        have hok := (ha (f a)).mpr ⟨hP, rfl⟩
        rw [hc] at hok
        cases hok
      simp [nullable, hc, Except.map, hbad]
    | ok b =>
      obtain ⟨hP, rfl⟩ := (ha b).mp hc
      simp [nullable, hc, Except.map, hP, eq_comm]

theorem insertEach_iff {α β : Type} {insert : α → Except ColumnError β} {P : α → Prop} {f : α → β}
    {l : List α} {bs : List β} (h : ∀ a ∈ l, ∀ b, insert a = .ok b ↔ P a ∧ b = f a) :
    insertEach insert l = .ok bs ↔ (∀ a ∈ l, P a) ∧ bs = l.map f := by
  induction l generalizing bs with
  | nil => simp [insertEach, eq_comm]
  | cons a l ih =>
    have hhead := h a List.mem_cons_self
    have hrest := fun bs => @ih bs fun a' ha' => h a' (List.mem_cons_of_mem a ha')
    unfold insertEach
    simp only [column_bind_iff, column_pure_iff, hhead, hrest, List.forall_mem_cons, List.map_cons, and_assoc]
    constructor
    · rintro ⟨b, hP, rfl, others, hall, rfl, rfl⟩
      exact ⟨hP, hall, rfl⟩
    · rintro ⟨hP, hall, rfl⟩
      exact ⟨_, hP, rfl, _, hall, rfl, rfl⟩

theorem insertEach_error {α β : Type} {insert : α → Except ColumnError β} {l : List α} {e : ColumnError}
    (h : insertEach insert l = .error e) : ∃ a ∈ l, insert a = .error e := by
  induction l with
  | nil => cases h
  | cons a l ih =>
    cases ha : insert a with
    | error e' =>
      rw [insertEach, ha] at h
      cases h
      exact ⟨a, List.mem_cons_self, ha⟩
    | ok b =>
      cases hl : insertEach insert l with
      | error e' =>
        rw [insertEach, ha, hl] at h
        cases h
        obtain ⟨a', ha', hfail⟩ := ih hl
        exact ⟨a', List.mem_cons_of_mem a ha', hfail⟩
      | ok others =>
        rw [insertEach, ha, hl] at h
        cases h

theorem dataOnly_integerColumn (n : ℤ) : DataOnly (integerColumn n) := by
  unfold integerColumn
  simp only [dataOnly_bind, dataOnly_ensure, dataOnly_pure, implies_true, and_self]

theorem dataOnly_textColumn (maxLength : ℕ) (s : String) : DataOnly (textColumn maxLength s) := by
  unfold textColumn
  simp only [dataOnly_bind, dataOnly_ensure, dataOnly_pure, implies_true, and_self]

theorem dataOnly_numericColumn (scale : ℕ) (d : Dec) : DataOnly (numericColumn scale d) := by
  unfold numericColumn
  simp only [dataOnly_bind, dataOnly_ensure, dataOnly_pure, implies_true, and_self]

theorem dataOnly_amountColumn (d : Dec) : DataOnly (amountColumn d) := dataOnly_numericColumn 8 d

theorem dataOnly_ratioColumn (d : Dec) : DataOnly (ratioColumn d) := dataOnly_numericColumn 12 d

theorem dataOnly_jsonColumn (j : Json) : DataOnly (jsonColumn j) := by
  unfold jsonColumn
  simp only [dataOnly_bind, dataOnly_ensure, dataOnly_pure, implies_true, and_self]

theorem dataOnly_nullable {α β : Type} {column : α → Except ColumnError β} (h : ∀ a, DataOnly (column a))
    (o : Option α) : DataOnly (nullable column o) := by
  cases o with
  | none => exact fun h => by cases h
  | some a =>
    have ha := h a
    unfold DataOnly nullable at *
    cases hc : column a with
    | error e => simpa [hc, Except.map] using ha
    | ok b => simp [hc, Except.map]

end Quantive.Backtests
