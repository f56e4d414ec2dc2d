import Quantive.Json.Value

/-!
# JSON text

`json.dumps` with compact separators and `ensure_ascii`. The text of a value tells the value: an
escape tells its character, a literal its number, and every list and object ends at a bracket.
-/

namespace Quantive.Json

/-! ### Strings -/

def hex4 (n : ℕ) : List Char :=
  [Nat.digitChar (n / 4096 % 16), Nat.digitChar (n / 256 % 16), Nat.digitChar (n / 16 % 16),
    Nat.digitChar (n % 16)]

/-- A code unit, as `\\u` and four hexadecimal digits. -/
def unicodeEscape (n : ℕ) : List Char := '\\' :: 'u' :: hex4 n

/-- `ensure_ascii`: a character beyond the basic plane is a surrogate pair. -/
def escape (c : Char) : List Char :=
  if c = '"' then ['\\', '"']
  else if c = '\\' then ['\\', '\\']
  else if c = '\n' then ['\\', 'n']
  else if c = '\r' then ['\\', 'r']
  else if c = '\t' then ['\\', 't']
  else if c = '\x08' then ['\\', 'b']
  else if c = '\x0c' then ['\\', 'f']
  else if ' ' ≤ c ∧ c ≤ '~' then [c]
  else if c.toNat < 0x10000 then unicodeEscape c.toNat
  else unicodeEscape (0xd800 + (c.toNat - 0x10000) / 0x400) ++
    unicodeEscape (0xdc00 + (c.toNat - 0x10000) % 0x400)

/-- The value of a hexadecimal digit. -/
def hexValue (c : Char) : ℕ := if c.isDigit then c.toNat - '0'.toNat else c.toNat - 'a'.toNat + 10

def unhex4 (a b c d : Char) : ℕ :=
  hexValue a * 4096 + hexValue b * 256 + hexValue c * 16 + hexValue d

/-- The first character of an escaped text, and what follows. -/
def unescape : List Char → Option (Char × List Char)
  | '\\' :: 'u' :: a :: b :: c :: d :: rest =>
    let unit := unhex4 a b c d
    if 0xd800 ≤ unit ∧ unit < 0xdc00 then
      match rest with
      | _ :: _ :: a' :: b' :: c' :: d' :: rest' =>
        some (Char.ofNat (0x10000 + (unit - 0xd800) * 0x400 + (unhex4 a' b' c' d' - 0xdc00)), rest')
      | _ => none
    else some (Char.ofNat unit, rest)
  | '\\' :: 'n' :: rest => some ('\n', rest)
  | '\\' :: 'r' :: rest => some ('\r', rest)
  | '\\' :: 't' :: rest => some ('\t', rest)
  | '\\' :: 'b' :: rest => some ('\x08', rest)
  | '\\' :: 'f' :: rest => some ('\x0c', rest)
  | '\\' :: c :: rest => some (c, rest)
  | c :: rest => some (c, rest)
  | [] => none

theorem hexValue_digitChar : ∀ n < 16, hexValue (Nat.digitChar n) = n := by decide

theorem unhex4_hex4 {n : ℕ} (h : n < 0x10000) :
    unhex4 (Nat.digitChar (n / 4096 % 16)) (Nat.digitChar (n / 256 % 16))
      (Nat.digitChar (n / 16 % 16)) (Nat.digitChar (n % 16)) = n := by
  unfold unhex4
  rw [hexValue_digitChar _ (by omega), hexValue_digitChar _ (by omega),
    hexValue_digitChar _ (by omega), hexValue_digitChar _ (by omega)]
  omega

theorem unescape_unicode {n : ℕ} (h : n < 0x10000) (hplain : n < 0xd800 ∨ 0xdc00 ≤ n)
    (rest : List Char) : unescape (unicodeEscape n ++ rest) = some (Char.ofNat n, rest) := by
  have hunit := unhex4_hex4 h
  simp only [unicodeEscape, hex4, List.cons_append, List.nil_append, unescape, hunit]
  rw [if_neg (by omega)]

theorem unescape_escape (c : Char) (rest : List Char) :
    unescape (escape c ++ rest) = some (c, rest) := by
  unfold escape
  by_cases h1 : c = '"'
  · subst h1
    rfl
  rw [if_neg h1]
  by_cases h2 : c = '\\'
  · subst h2
    rfl
  rw [if_neg h2]
  by_cases h3 : c = '\n'
  · subst h3
    rfl
  rw [if_neg h3]
  by_cases h4 : c = '\r'
  · subst h4
    rfl
  rw [if_neg h4]
  by_cases h5 : c = '\t'
  · subst h5
    rfl
  rw [if_neg h5]
  by_cases h6 : c = '\x08'
  · subst h6
    rfl
  rw [if_neg h6]
  by_cases h7 : c = '\x0c'
  · subst h7
    rfl
  rw [if_neg h7]
  have hscalar : c.toNat < 0xd800 ∨ 0xdfff < c.toNat ∧ c.toNat < 0x110000 := c.valid
  by_cases h8 : ' ' ≤ c ∧ c ≤ '~'
  · rw [if_pos h8]
    simp [unescape, h2]
  rw [if_neg h8]
  by_cases h9 : c.toNat < 0x10000
  · rw [if_pos h9, unescape_unicode h9 (by omega), Char.ofNat_toNat]
  rw [if_neg h9, List.append_assoc]
  have hhigh := unhex4_hex4 (n := 0xd800 + (c.toNat - 0x10000) / 0x400) (by omega)
  have hlow := unhex4_hex4 (n := 0xdc00 + (c.toNat - 0x10000) % 0x400) (by omega)
  simp only [unicodeEscape, hex4, List.cons_append, List.nil_append, unescape, hhigh, hlow]
  rw [if_pos (by omega)]
  have hvalue : 0x10000 + (0xd800 + (c.toNat - 0x10000) / 0x400 - 0xd800) * 0x400 +
      (0xdc00 + (c.toNat - 0x10000) % 0x400 - 0xdc00) = c.toNat := by omega
  rw [hvalue, Char.ofNat_toNat]

theorem escape_inj {c d : Char} {cs ds : List Char} (h : escape c ++ cs = escape d ++ ds) :
    c = d ∧ cs = ds := by
  have hsame := unescape_escape c cs
  rw [h, unescape_escape] at hsame
  obtain ⟨hc, hcs⟩ := Prod.mk.inj (Option.some.inj hsame)
  exact ⟨hc.symm, hcs.symm⟩

/-- The closing quote is no escape. -/
theorem escape_head (c : Char) : ∃ d ds, escape c = d :: ds ∧ d ≠ '"' := by
  unfold escape
  by_cases h : c = '"'
  · exact ⟨'\\', ['"'], if_pos h, by decide⟩
  rw [if_neg h]
  split_ifs
  all_goals first
    | exact ⟨_, _, rfl, h⟩
    | exact ⟨_, _, rfl, by decide⟩

def quote (s : String) : List Char := '"' :: (s.toList.flatMap escape ++ ['"'])

theorem escaped_inj {cs ds xs ys : List Char}
    (h : cs.flatMap escape ++ '"' :: xs = ds.flatMap escape ++ '"' :: ys) : cs = ds ∧ xs = ys := by
  induction cs generalizing ds with
  | nil =>
    cases ds with
    | nil => exact ⟨rfl, (List.cons.inj h).2⟩
    | cons d ds =>
      obtain ⟨c, rest, heq, hne⟩ := escape_head d
      rw [List.flatMap_cons, heq] at h
      exact (hne (List.cons.inj h).1.symm).elim
  | cons c cs ih =>
    cases ds with
    | nil =>
      obtain ⟨d, rest, heq, hne⟩ := escape_head c
      rw [List.flatMap_cons, heq] at h
      exact (hne (List.cons.inj h).1).elim
    | cons d ds =>
      rw [List.flatMap_cons, List.flatMap_cons, List.append_assoc, List.append_assoc] at h
      obtain ⟨rfl, hrest⟩ := escape_inj h
      obtain ⟨rfl, hxs⟩ := ih hrest
      exact ⟨rfl, hxs⟩

theorem quote_inj {s t : String} {xs ys : List Char} (h : quote s ++ xs = quote t ++ ys) :
    s = t ∧ xs = ys := by
  simp only [quote, List.cons_append, List.append_assoc, List.nil_append, List.cons.injEq,
    true_and] at h
  obtain ⟨hs, hxs⟩ := escaped_inj h
  exact ⟨String.toList_injective hs, hxs⟩

/-! ### Values -/

mutual

def dumps : Json → List Char
  | null => ['n', 'u', 'l', 'l']
  | bool true => ['t', 'r', 'u', 'e']
  | bool false => ['f', 'a', 'l', 's', 'e']
  | number n => n.literal.text
  | str s => quote s
  | arr [] => ['[', ']']
  | arr (j :: rest) => '[' :: (dumps j ++ dumpsItems rest)
  | obj [] => ['{', '}']
  | obj ((key, j) :: rest) => '{' :: (quote key ++ ':' :: (dumps j ++ dumpsFields rest))

/-- The items after the first. -/
def dumpsItems : List Json → List Char
  | [] => [']']
  | j :: rest => ',' :: (dumps j ++ dumpsItems rest)

/-- The fields after the first. -/
def dumpsFields : Fields → List Char
  | [] => ['}']
  | (key, j) :: rest => ',' :: (quote key ++ ':' :: (dumps j ++ dumpsFields rest))

end

/-- `json.dumps` with `sort_keys`. -/
def dumpsSorted (j : Json) : String := String.ofList (dumps (canonicalize j))

/-- The kind of value that a first character announces. -/
def announces (c : Char) : ℕ :=
  if c = 'n' then 0 else if c = 't' ∨ c = 'f' then 1 else if c = '"' then 2
  else if c = '[' then 3 else if c = '{' then 4 else if c = '-' ∨ c.isDigit then 5 else 6

def kind : Json → ℕ
  | null => 0
  | bool _ => 1
  | str _ => 2
  | arr _ => 3
  | obj _ => 4
  | number _ => 5

theorem announces_number (l : Literal) : ∃ c cs, l.text = c :: cs ∧ announces c = 5 := by
  have hdigit : ∀ c : Char, c.isDigit = true → announces c = 5 := by
    intro c hc
    have hne : ∀ d : Char, d.isDigit = false → c ≠ d := by
      rintro d hd rfl
      rw [hc] at hd
      cases hd
    simp [announces, hne 'n' rfl, hne 't' rfl, hne 'f' rfl, hne '"' rfl, hne '[' rfl,
      hne '{' rfl, hc]
  cases hwhole : l.whole with
  | nil => exact (l.whole_ne_nil hwhole).elim
  | cons c cs =>
    have hc := Literal.isDigit_whole (l := l) (hwhole ▸ List.mem_cons_self)
    rw [Literal.text, hwhole]
    cases l.negative
    · exact ⟨c, _, rfl, hdigit c hc⟩
    · exact ⟨'-', _, rfl, by decide⟩

theorem dumps_head (j : Json) : ∃ c cs, dumps j = c :: cs ∧ announces c = j.kind := by
  cases j with
  | null => exact ⟨'n', ['u', 'l', 'l'], by rw [dumps], by decide⟩
  | bool b =>
    cases b
    · exact ⟨'f', _, by rw [dumps], by decide⟩
    · exact ⟨'t', _, by rw [dumps], by decide⟩
  | number n =>
    rw [dumps]
    exact announces_number n.literal
  | str s => exact ⟨'"', _, by rw [dumps, quote], rfl⟩
  | arr items => cases items <;> exact ⟨'[', _, by rw [dumps], rfl⟩
  | obj fields =>
    cases fields with
    | nil => exact ⟨'{', _, by rw [dumps], rfl⟩
    | cons p rest => exact ⟨'{', _, by rw [dumps], rfl⟩

theorem kind_lt (j : Json) : j.kind < 6 := by
  cases j <;> exact of_decide_eq_true rfl

/-- No value starts with a closing bracket. -/
theorem dumps_ne_close (j : Json) (cs ds : List Char) : ']' :: cs ≠ dumps j ++ ds := by
  obtain ⟨c, t, htext, hc⟩ := dumps_head j
  have hlt := j.kind_lt
  intro h
  rw [htext, List.cons_append] at h
  rw [← hc, ← (List.cons.inj h).1] at hlt
  exact absurd hlt (by decide)

theorem ends_items (items : List Json) (cs : List Char) : Literal.Ends (dumpsItems items ++ cs) := by
  cases items <;> (intro c hc; rw [dumpsItems] at hc; cases hc; decide)

theorem ends_fields (fields : Fields) (cs : List Char) :
    Literal.Ends (dumpsFields fields ++ cs) := by
  cases fields <;> (intro c hc; rw [dumpsFields] at hc; cases hc; decide)

mutual

/-- The text of a value tells the value, and where it ends. -/
theorem dumps_inj (j j' : Json) {cs ds : List Char} (hcs : Literal.Ends cs) (hds : Literal.Ends ds)
    (h : dumps j ++ cs = dumps j' ++ ds) : j = j' ∧ cs = ds := by
  have hkind : j.kind = j'.kind := by
    obtain ⟨c, t, htext, hc⟩ := dumps_head j
    obtain ⟨c', t', htext', hc'⟩ := dumps_head j'
    rw [htext, htext', List.cons_append, List.cons_append] at h
    rw [← hc, ← hc', (List.cons.inj h).1]
  cases j with
  | null =>
    cases j' with
    | null => exact ⟨rfl, List.append_cancel_left h⟩
    | _ => cases hkind
  | bool b =>
    cases j' with
    | bool b' => cases b <;> cases b' <;> simp_all [dumps]
    | _ => cases hkind
  | number n =>
    cases j' with
    | number n' =>
      rw [dumps, dumps] at h
      obtain ⟨hliteral, hrest⟩ := Literal.text_inj hcs hds h
      exact ⟨congrArg Json.number (Number.literal_inj hliteral), hrest⟩
    | _ => cases hkind
  | str s =>
    cases j' with
    | str s' =>
      rw [dumps, dumps] at h
      obtain ⟨rfl, hrest⟩ := quote_inj h
      exact ⟨rfl, hrest⟩
    | _ => cases hkind
  | arr items =>
    cases j' with
    | arr items' =>
      obtain ⟨rfl, hrest⟩ := dumpsArr_inj items items' h
      exact ⟨rfl, hrest⟩
    | _ => cases hkind
  | obj fields =>
    cases j' with
    | obj fields' =>
      obtain ⟨rfl, hrest⟩ := dumpsObj_inj fields fields' h
      exact ⟨rfl, hrest⟩
    | _ => cases hkind
termination_by structural j

theorem dumpsArr_inj (items items' : List Json) {cs ds : List Char}
    (h : dumps (.arr items) ++ cs = dumps (.arr items') ++ ds) : items = items' ∧ cs = ds := by
  cases items with
  | nil =>
    cases items' with
    | nil =>
      rw [dumps] at h
      exact ⟨rfl, List.append_cancel_left h⟩
    | cons j' rest' =>
      simp only [dumps, List.cons_append, List.append_assoc, List.nil_append] at h
      exact (dumps_ne_close j' _ _ (List.cons.inj h).2).elim
  | cons j rest =>
    cases items' with
    | nil =>
      simp only [dumps, List.cons_append, List.append_assoc, List.nil_append] at h
      exact (dumps_ne_close j _ _ (List.cons.inj h).2.symm).elim
    | cons j' rest' =>
      rw [dumps, dumps, List.cons_append, List.cons_append, List.append_assoc,
        List.append_assoc] at h
      obtain ⟨rfl, hitems⟩ := dumps_inj j j' (ends_items rest cs) (ends_items rest' ds)
        (List.cons.inj h).2
      obtain ⟨rfl, hrest⟩ := dumpsItems_inj rest rest' hitems
      exact ⟨rfl, hrest⟩
termination_by structural items

theorem dumpsItems_inj (items items' : List Json) {cs ds : List Char}
    (h : dumpsItems items ++ cs = dumpsItems items' ++ ds) : items = items' ∧ cs = ds := by
  cases items with
  | nil =>
    cases items' with
    | nil => exact ⟨rfl, (List.cons.inj h).2⟩
    | cons j' rest' => simp [dumpsItems] at h
  | cons j rest =>
    cases items' with
    | nil => simp [dumpsItems] at h
    | cons j' rest' =>
      rw [dumpsItems, dumpsItems, List.cons_append, List.cons_append, List.append_assoc,
        List.append_assoc] at h
      obtain ⟨rfl, hitems⟩ := dumps_inj j j' (ends_items rest cs) (ends_items rest' ds)
        (List.cons.inj h).2
      obtain ⟨rfl, hrest⟩ := dumpsItems_inj rest rest' hitems
      exact ⟨rfl, hrest⟩
termination_by structural items

theorem dumpsObj_inj (fields fields' : Fields) {cs ds : List Char}
    (h : dumps (.obj fields) ++ cs = dumps (.obj fields') ++ ds) : fields = fields' ∧ cs = ds := by
  cases fields with
  | nil =>
    cases fields' with
    | nil =>
      rw [dumps] at h
      exact ⟨rfl, List.append_cancel_left h⟩
    | cons p' rest' => simp [dumps, quote] at h
  | cons p rest =>
    obtain ⟨key, j⟩ := p
    cases fields' with
    | nil => simp [dumps, quote] at h
    | cons p' rest' =>
      obtain ⟨key', j'⟩ := p'
      simp only [dumps, List.cons_append, List.append_assoc, List.cons.injEq, true_and] at h
      obtain ⟨rfl, hvalue⟩ := quote_inj h
      obtain ⟨rfl, hfields⟩ := dumps_inj j j' (ends_fields rest cs) (ends_fields rest' ds)
        (List.cons.inj hvalue).2
      obtain ⟨rfl, hrest⟩ := dumpsFields_inj rest rest' hfields
      exact ⟨rfl, hrest⟩
termination_by structural fields

theorem dumpsFields_inj (fields fields' : Fields) {cs ds : List Char}
    (h : dumpsFields fields ++ cs = dumpsFields fields' ++ ds) : fields = fields' ∧ cs = ds := by
  cases fields with
  | nil =>
    cases fields' with
    | nil => exact ⟨rfl, (List.cons.inj h).2⟩
    | cons p' rest' => simp [dumpsFields] at h
  | cons p rest =>
    obtain ⟨key, j⟩ := p
    cases fields' with
    | nil => simp [dumpsFields] at h
    | cons p' rest' =>
      obtain ⟨key', j'⟩ := p'
      simp only [dumpsFields, List.cons_append, List.append_assoc, List.cons.injEq, true_and] at h
      obtain ⟨rfl, hvalue⟩ := quote_inj h
      obtain ⟨rfl, hfields⟩ := dumps_inj j j' (ends_fields rest cs) (ends_fields rest' ds)
        (List.cons.inj hvalue).2
      obtain ⟨rfl, hrest⟩ := dumpsFields_inj rest rest' hfields
      exact ⟨rfl, hrest⟩
termination_by structural fields

end

/-- Two values have one sorted text exactly when they are the same up to the order of keys. -/
theorem dumpsSorted_eq_iff {j j' : Json} (h : WellFormed j) (h' : WellFormed j') :
    dumpsSorted j = dumpsSorted j' ↔ same exactly j j' = true := by
  rw [← canonicalize_eq_iff j j' h h']
  constructor
  · intro htext
    have hdumps : dumps (canonicalize j) ++ [] = dumps (canonicalize j') ++ [] := by
      rw [List.append_nil, List.append_nil]
      exact String.ofList_injective htext
    have hends : Literal.Ends [] := fun c hc => by cases hc
    exact (dumps_inj _ _ hends hends hdumps).1
  · intro heq
    rw [dumpsSorted, heq, dumpsSorted]

end Quantive.Json
