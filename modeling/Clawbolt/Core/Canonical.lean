/-
What `json.dumps(value, sort_keys=True)` tells apart: two values have the same text when they are equal but for the order of
keys. The values here have no integers and no integral floats in them, as their texts could be those of one another.

- `readChar_escapeChar`: an escaped character can be read back;
- `print_unique`: the text of a value, followed by a delimiter, is the text of no other;
- `dumps_eq_iff`: values with the same text are equal in Python.
-/
import Mathlib.Tactic
import Mathlib.Data.List.Sort
import Clawbolt.Core.Dumps
import Clawbolt.Core.Orders

namespace Json

open Text (Str)

/-! ## Strings -/

def hexValue (c : Char) : ℕ := if c.toNat < 58 then c.toNat - 48 else c.toNat - 87

/-- four hexadecimal digits -/
def readUnit : Str → Option (ℕ × Str)
  | a :: b :: c :: d :: t => some (hexValue a * 4096 + hexValue b * 256 + hexValue c * 16 + hexValue d, t)
  | _ => none

def shortEscape : Char → Char
  | 'n' => '\n'
  | 'r' => '\r'
  | 't' => '\t'
  | 'f' => Char.ofNat 12
  | 'b' => Char.ofNat 8
  | c => c

/-- the next character of the text of a string -/
def readChar : Str → Option (Char × Str)
  | '\\' :: 'u' :: t =>
    (readUnit t).bind fun p =>
      if 0xd800 ≤ p.1 ∧ p.1 < 0xdc00 then
        (readUnit (p.2.drop 2)).map fun q => (Char.ofNat (0x10000 + (p.1 - 0xd800) * 1024 + (q.1 - 0xdc00)), q.2)
      else some (Char.ofNat p.1, p.2)
  | '\\' :: c :: t => some (shortEscape c, t)
  | c :: t => some (c, t)
  | [] => none

theorem hexValue_hexDigit (n : ℕ) : hexValue (hexDigit (n % 16)) = n % 16 := by
  have hall : ∀ k : Fin 16, hexValue (hexDigit k) = k := by decide
  exact hall ⟨n % 16, Nat.mod_lt _ (by decide)⟩

theorem readUnit_unicodeEscape {n : ℕ} (h : n < 0x10000) (t : Str) :
    ∃ u, unicodeEscape n = '\\' :: 'u' :: u ∧ readUnit (u ++ t) = some (n, t) := by
  refine ⟨_, rfl, ?_⟩
  simp only [List.cons_append, List.nil_append, readUnit, hexValue_hexDigit, Option.some.injEq, Prod.mk.injEq, and_true]
  omega

/-- a character is no surrogate -/
theorem no_surrogate (c : Char) : c.toNat < 0xd800 ∨ 0xdfff < c.toNat ∧ c.toNat < 0x110000 := c.valid

/-- a character of the basic plane, written with one escape -/
theorem readChar_unit {c : Char} (h : c.toNat < 0x10000) (t : Str) : readChar (unicodeEscape c.toNat ++ t) = some (c, t) := by
  obtain ⟨u, hu, hread⟩ := readUnit_unicodeEscape h t
  have hno := no_surrogate c
  rw [hu, List.cons_append, List.cons_append, readChar, hread, Option.bind_some, if_neg (by dsimp only; omega)]
  simp only [Char.ofNat_toNat]

/-- a character beyond it, written with two -/
theorem readChar_pair {c : Char} (h : ¬ c.toNat < 0x10000) (t : Str) :
    readChar (unicodeEscape (0xd800 + (c.toNat - 0x10000) / 1024) ++
      (unicodeEscape (0xdc00 + (c.toNat - 0x10000) % 1024) ++ t)) = some (c, t) := by
  have hno := no_surrogate c
  obtain ⟨v, hv, hlow⟩ := @readUnit_unicodeEscape (0xdc00 + (c.toNat - 0x10000) % 1024) (by omega) t
  obtain ⟨u, hu, hhigh⟩ := @readUnit_unicodeEscape (0xd800 + (c.toNat - 0x10000) / 1024) (by omega)
    (unicodeEscape (0xdc00 + (c.toNat - 0x10000) % 1024) ++ t)
  have hvalue : 0x10000 + (0xd800 + (c.toNat - 0x10000) / 1024 - 0xd800) * 1024 +
      (0xdc00 + (c.toNat - 0x10000) % 1024 - 0xdc00) = c.toNat := by omega
  rw [hu, List.cons_append, List.cons_append, readChar, hhigh, Option.bind_some, if_pos (by dsimp only; omega), hv]
  simp only [List.cons_append, List.drop_succ_cons, List.drop_zero, hlow, Option.map_some, hvalue, Char.ofNat_toNat]

/-- **An escaped character can be read back.** -/
theorem readChar_escapeChar (c : Char) (t : Str) : readChar (escapeChar c ++ t) = some (c, t) := by
  rw [escapeChar]
  split_ifs with hplain hquote hslash hline hreturn htab hfeed hback hunit
  · have hne : c ≠ '\\' := by
      rintro rfl
      exact absurd hplain (by decide)
    rw [List.singleton_append]
    unfold readChar
    split
    · rename_i heq
      exact absurd (List.cons.inj heq).1 hne
    · rename_i heq
      exact absurd (List.cons.inj heq).1 hne
    · rename_i heq
      obtain ⟨rfl, rfl⟩ := List.cons.inj heq
      rfl
    · rename_i heq
      exact absurd heq (List.cons_ne_nil _ _)
  · subst hquote
    rfl
  · subst hslash
    rfl
  · subst hline
    rfl
  · subst hreturn
    rfl
  · subst htab
    rfl
  · rw [← Char.ofNat_toNat c, hfeed]
    rfl
  · rw [← Char.ofNat_toNat c, hback]
    rfl
  · exact readChar_unit hunit t
  · rw [List.append_assoc]
    exact readChar_pair hunit t

theorem escapeChar_unique {c d : Char} {s t : Str} (h : escapeChar c ++ s = escapeChar d ++ t) : c = d ∧ s = t := by
  have hread := readChar_escapeChar c s
  rw [h, readChar_escapeChar] at hread
  exact Prod.mk.inj (Option.some.inj hread.symm)

/-- a quote ends the text of a string -/
theorem escapeChar_ne_quote (c : Char) (s t : Str) : '"' :: s ≠ escapeChar c ++ t := by
  cases hplain : plain c with
  | true =>
    rw [escapeChar, if_pos hplain]
    intro h
    obtain rfl := (List.cons.inj h).1
    exact absurd hplain (by decide)
  | false =>
    obtain ⟨u, hu⟩ := escapeChar_escaped hplain
    rw [hu]
    intro h
    exact absurd (List.cons.inj h).1 (by decide)

theorem escape_cons (c : Char) (s : Str) : escape (c :: s) = escapeChar c ++ escape s := rfl

/-- a string and what follows it can be read off its text -/
theorem escape_unique {s t x y : Str} (h : escape s ++ '"' :: x = escape t ++ '"' :: y) : s = t ∧ x = y := by
  induction s generalizing t with
  | nil =>
    cases t with
    | nil => exact ⟨rfl, (List.cons.inj h).2⟩
    | cons d t => exact absurd (h.trans (by rw [escape_cons, List.append_assoc])) (escapeChar_ne_quote d _ _)
  | cons c s ih =>
    cases t with
    | nil => exact absurd (h.symm.trans (by rw [escape_cons, List.append_assoc])) (escapeChar_ne_quote c _ _)
    | cons d t =>
      rw [escape_cons, escape_cons, List.append_assoc, List.append_assoc] at h
      obtain ⟨rfl, hrest⟩ := escapeChar_unique h
      obtain ⟨rfl, hend⟩ := ih hrest
      exact ⟨rfl, hend⟩

/-! ## Values -/

variable (floatText : ℚ → Str) (le : Str → Str → Bool)

mutual

/-- the text of a value, with the keys in the order that they have -/
def print : Json → Str
  | .null => "null".toList
  | .bool b => if b then "true".toList else "false".toList
  | .int n => (toString n).toList
  | .float x => floatText x
  | .str s => '"' :: (escape s ++ ['"'])
  | .arr l => '[' :: (printItems l ++ [']'])
  | .obj d => '{' :: (printFields d ++ ['}'])

def printItems : List Json → Str
  | [] => []
  | v :: l => print v ++ printMore l

/-- the items after another one -/
def printMore : List Json → Str
  | [] => []
  | v :: l => ',' :: ' ' :: (print v ++ printMore l)

def printFields : List (Str × Json) → Str
  | [] => []
  | (k, v) :: d => '"' :: (escape k ++ '"' :: ':' :: ' ' :: (print v ++ printMoreFields d))

def printMoreFields : List (Str × Json) → Str
  | [] => []
  | (k, v) :: d => ',' :: ' ' :: '"' :: (escape k ++ '"' :: ':' :: ' ' :: (print v ++ printMoreFields d))

end

mutual

/-- a value with the keys sorted, at any depth -/
def sorted : Json → Json
  | .arr l => .arr (sortedItems l)
  | .obj d => .obj ((sortedFields d).insertionSort fun a b => le a.1 b.1)
  | v => v

def sortedItems : List Json → List Json
  | [] => []
  | v :: l => sorted v :: sortedItems l

def sortedFields : List (Str × Json) → List (Str × Json)
  | [] => []
  | (k, v) :: d => (k, sorted v) :: sortedFields d

end

variable {floatText le}

theorem sortedFields_eq (d : List (Str × Json)) : sortedFields le d = d.map fun kv => (kv.1, sorted le kv.2) := by
  induction d with
  | nil => rfl
  | cons kv d ih => rw [sortedFields, List.map_cons, ih]

theorem join_cons (t : Str) (ts : List Str) :
    Text.join ", ".toList (t :: ts) = t ++ ts.flatMap fun u => ',' :: ' ' :: u := by
  induction ts generalizing t with
  | nil => simp [Text.join]
  | cons u ts ih =>
    rw [join_cons_cons, ih, List.flatMap_cons]
    rfl

theorem printMore_eq (l : List Json) :
    printMore floatText l = l.flatMap fun v => ',' :: ' ' :: print floatText v := by
  induction l with
  | nil => rfl
  | cons v l ih =>
    rw [printMore, ih, List.flatMap_cons]
    rfl

theorem printItems_eq (l : List Json) :
    printItems floatText l = Text.join ", ".toList (l.map (print floatText)) := by
  cases l with
  | nil => rfl
  | cons v l =>
    rw [printItems, printMore_eq, List.map_cons, join_cons, List.flatMap_map]

theorem printMoreFields_eq (d : List (Str × Json)) :
    printMoreFields floatText d = d.flatMap fun kv =>
      ',' :: ' ' :: '"' :: (escape kv.1 ++ '"' :: ':' :: ' ' :: print floatText kv.2) := by
  induction d with
  | nil => rfl
  | cons kv d ih =>
    rw [printMoreFields, ih, List.flatMap_cons]
    simp

theorem printFields_eq (d : List (Str × Json)) :
    printFields floatText d = Text.join ", ".toList (d.map fun kv =>
      '"' :: (escape kv.1 ++ '"' :: ':' :: ' ' :: print floatText kv.2)) := by
  cases d with
  | nil => rfl
  | cons kv d =>
    rw [printFields, printMoreFields_eq, List.map_cons, join_cons, List.flatMap_map]
    simp

mutual

/-- sorting the keys first -/
theorem dumps_eq_print : ∀ v : Json, dumps floatText le v = print floatText (sorted le v)
  | .null => rfl
  | .bool _ => rfl
  | .int _ => rfl
  | .float _ => rfl
  | .str _ => rfl
  | .arr l => by rw [dumps, sorted, print, printItems_eq, dumpsItems_eq_print]
  | .obj d => by
    rw [dumps, sorted, print, printFields_eq, dumpsFields_eq_print]
    have hsort := List.map_insertionSort (r := fun a b : Str × Json => le a.1 b.1 = true)
      (s := fun a b : Str × Str => le a.1 b.1 = true) (fun kv : Str × Json => (kv.1, print floatText kv.2))
      (sortedFields le d) (fun _ _ _ _ => Iff.rfl)
    rw [← hsort, List.map_map]
    rfl

theorem dumpsItems_eq_print : ∀ l : List Json, dumpsItems floatText le l = (sortedItems le l).map (print floatText)
  | [] => rfl
  | v :: l => by rw [dumpsItems, sortedItems, List.map_cons, dumps_eq_print v, dumpsItems_eq_print l]

theorem dumpsFields_eq_print : ∀ d : List (Str × Json),
    dumpsFields floatText le d = (sortedFields le d).map fun kv => (kv.1, print floatText kv.2)
  | [] => rfl
  | (k, v) :: d => by rw [dumpsFields, sortedFields, List.map_cons, dumps_eq_print v, dumpsFields_eq_print d]

end

/-! ## What a text is the text of -/

/-- the characters of a number -/
def numeric (c : Char) : Bool := c.isDigit || c = '-' || c = '+' || c = '.' || c = 'e'

/-- what `repr` promises of floats -/
structure FloatTexts (floatText : ℚ → Str) : Prop where
  nonempty : ∀ x, floatText x ≠ []
  numeric : ∀ x, ∀ c ∈ floatText x, numeric c = true
  injective : Function.Injective floatText

mutual

/-- no integers, and no integral floats -/
def Settled : Json → Prop
  | .int _ => False
  | .float x => x.den ≠ 1
  | .arr l => SettledItems l
  | .obj d => SettledFields d
  | _ => True

def SettledItems : List Json → Prop
  | [] => True
  | v :: l => Settled v ∧ SettledItems l

def SettledFields : List (Str × Json) → Prop
  | [] => True
  | (_, v) :: d => Settled v ∧ SettledFields d

end

theorem settledFields_iff (d : List (Str × Json)) : SettledFields d ↔ ∀ kv ∈ d, Settled kv.2 := by
  induction d with
  | nil => simp [SettledFields]
  | cons kv d ih => simp [SettledFields, ih]

/-- what the first character of a text says of the value; of a delimiter, it says that there is none -/
def kindOf (c : Char) : ℕ :=
  if c = 'n' then 0 else if c = 't' then 1 else if c = 'f' then 2 else if c = '"' then 4 else if c = '[' then 5
  else if c = '{' then 6 else if numeric c then 3 else 7

def kind : Json → ℕ
  | .null => 0
  | .bool true => 1
  | .bool false => 2
  | .int _ => 3
  | .float _ => 3
  | .str _ => 4
  | .arr _ => 5
  | .obj _ => 6

theorem kindOf_numeric {c : Char} (h : numeric c = true) : kindOf c = 3 := by
  have hne : ∀ d, numeric d = false → c ≠ d := by
    rintro d hd rfl
    exact Bool.false_ne_true (hd.symm.trans h)
  rw [kindOf, if_neg (hne _ (by decide)), if_neg (hne _ (by decide)), if_neg (hne _ (by decide)), if_neg (hne _ (by decide)),
    if_neg (hne _ (by decide)), if_neg (hne _ (by decide)), if_pos h]

/-- what may follow a value -/
def Delimited (t : Str) : Prop := ∀ c ∈ t.head?, c = ',' ∨ c = ']' ∨ c = '}'

theorem print_head (hfloat : FloatTexts floatText) {v : Json} (hv : Settled v) :
    ∃ c t, print floatText v = c :: t ∧ kindOf c = kind v := by
  cases v with
  | null => exact ⟨_, _, rfl, by decide⟩
  | bool b =>
    cases b
    · exact ⟨_, _, rfl, by decide⟩
    · exact ⟨_, _, rfl, by decide⟩
  | int n => exact absurd hv (by simp [Settled])
  | float x =>
    obtain ⟨c, t, hct⟩ := List.exists_cons_of_ne_nil (hfloat.nonempty x)
    refine ⟨c, t, hct, kindOf_numeric (hfloat.numeric x c ?_)⟩
    rw [hct]
    exact List.mem_cons_self
  | str s => exact ⟨_, _, rfl, rfl⟩
  | arr l => exact ⟨_, _, rfl, rfl⟩
  | obj d => exact ⟨_, _, rfl, rfl⟩

/-- texts of the same start are of values of the same kind -/
theorem kind_eq (hfloat : FloatTexts floatText) {v w : Json} (hv : Settled v) (hw : Settled w) {r s : Str}
    (h : print floatText v ++ r = print floatText w ++ s) : kind v = kind w := by
  obtain ⟨c, t, hc, hkind⟩ := print_head hfloat hv
  obtain ⟨d, u, hd, hkind'⟩ := print_head hfloat hw
  rw [hc, hd] at h
  rw [← hkind, ← hkind', (List.cons.inj h).1]

/-- a closing bracket starts no value -/
theorem print_ne_close (hfloat : FloatTexts floatText) {v : Json} (hv : Settled v) {c : Char} (hc : kindOf c = 7) (s t : Str) :
    c :: s ≠ print floatText v ++ t := by
  obtain ⟨d, u, hd, hkind⟩ := print_head hfloat hv
  rw [hd]
  intro h
  obtain rfl := (List.cons.inj h).1
  rw [hc] at hkind
  revert hkind
  cases v with
  | bool b => cases b <;> decide
  | _ => simp [kind]

theorem span_unique {p : Char → Bool} {a b r s : Str} (ha : ∀ c ∈ a, p c = true) (hb : ∀ c ∈ b, p c = true)
    (hr : ∀ c ∈ r.head?, p c = false) (hs : ∀ c ∈ s.head?, p c = false) (h : a ++ r = b ++ s) : a = b ∧ r = s := by
  induction a generalizing b with
  | nil =>
    cases b with
    | nil => exact ⟨rfl, h⟩
    | cons d b =>
      rw [List.nil_append] at h
      have hfalse := hr d (by rw [h]; rfl)
      exact absurd ((hb d List.mem_cons_self).symm.trans hfalse) Bool.noConfusion
  | cons c a ih =>
    cases b with
    | nil =>
      rw [List.nil_append] at h
      have hfalse := hs c (by rw [← h]; rfl)
      exact absurd ((ha c List.mem_cons_self).symm.trans hfalse) Bool.noConfusion
    | cons d b =>
      obtain ⟨rfl, htail⟩ := List.cons.inj h
      obtain ⟨rfl, hend⟩ := ih (fun x hx => ha x (List.mem_cons_of_mem _ hx)) (fun x hx => hb x (List.mem_cons_of_mem _ hx)) htail
      exact ⟨rfl, hend⟩

theorem Delimited.not_numeric {t : Str} (h : Delimited t) : ∀ c ∈ t.head?, numeric c = false := by
  intro c hc
  obtain rfl | rfl | rfl := h c hc <;> decide

theorem delimited_more {c : Char} (hc : c = ']' ∨ c = '}') (l : List Json) (x : Str) :
    Delimited (printMore floatText l ++ c :: x) := by
  intro d hd
  cases l with
  | nil =>
    obtain rfl := Option.some.inj hd
    exact .inr hc
  | cons v l => exact .inl (Option.some.inj hd).symm

theorem delimited_moreFields (d : List (Str × Json)) (x : Str) :
    Delimited (printMoreFields floatText d ++ '}' :: x) := by
  intro c hc
  cases d with
  | nil => exact .inr (.inr (Option.some.inj hc).symm)
  | cons kv d => exact .inl (Option.some.inj hc).symm

/-- the key and the rest of a field can be read off its text -/
theorem field_unique {k j t u x y : Str}
    (h : '"' :: (escape k ++ '"' :: ':' :: ' ' :: t) ++ x = '"' :: (escape j ++ '"' :: ':' :: ' ' :: u) ++ y) :
    k = j ∧ t ++ x = u ++ y := by
  rw [List.cons_append, List.cons_append, List.append_assoc, List.append_assoc] at h
  obtain ⟨hkey, hvalue⟩ := escape_unique (List.cons.inj h).2
  exact ⟨hkey, (List.cons.inj (List.cons.inj hvalue).2).2⟩

mutual

/-- **The text of a value**, followed by a delimiter, is the text of no other. -/
theorem print_unique (hfloat : FloatTexts floatText) : ∀ (v w : Json) (r s : Str), Settled v → Settled w → Delimited r →
    Delimited s → print floatText v ++ r = print floatText w ++ s → v = w ∧ r = s
  | .null, w, r, s, hv, hw, _, _, h => by
    have hkind := kind_eq hfloat hv hw h
    cases w with
    | null => exact ⟨rfl, List.append_cancel_left h⟩
    | bool b => cases b <;> exact absurd hkind (by decide)
    | _ => exact absurd hkind (by simp [kind])
  | .bool a, w, r, s, hv, hw, _, _, h => by
    have hkind := kind_eq hfloat hv hw h
    cases w with
    | bool b =>
      obtain rfl : a = b := by
        cases a <;> cases b <;> first | rfl | exact absurd hkind (by decide)
      exact ⟨rfl, List.append_cancel_left h⟩
    | _ => cases a <;> exact absurd hkind (by simp [kind])
  | .int _, _, _, _, hv, _, _, _, _ => absurd hv (by simp [Settled])
  | .float x, w, r, s, hv, hw, hr, hs, h => by
    have hkind := kind_eq hfloat hv hw h
    cases w with
    | float y =>
      obtain ⟨htext, hrest⟩ := span_unique (hfloat.numeric x) (hfloat.numeric y) hr.not_numeric hs.not_numeric h
      exact ⟨congrArg Json.float (hfloat.injective htext), hrest⟩
    | int n => exact absurd hw (by simp [Settled])
    | bool b => cases b <;> exact absurd hkind (by simp [kind])
    | _ => exact absurd hkind (by simp [kind])
  | .str t, w, r, s, hv, hw, _, _, h => by
    have hkind := kind_eq hfloat hv hw h
    cases w with
    | str u =>
      rw [print, print, List.cons_append, List.cons_append, List.append_assoc, List.append_assoc] at h
      obtain ⟨rfl, hrest⟩ := escape_unique (List.cons.inj h).2
      exact ⟨rfl, hrest⟩
    | bool b => cases b <;> exact absurd hkind (by simp [kind])
    | _ => exact absurd hkind (by simp [kind])
  | .arr l, w, r, s, hv, hw, _, _, h => by
    have hkind := kind_eq hfloat hv hw h
    cases w with
    | arr m =>
      rw [print, print, List.cons_append, List.cons_append, List.append_assoc, List.append_assoc] at h
      obtain ⟨rfl, hrest⟩ := items_unique hfloat l m r s hv hw (List.cons.inj h).2
      exact ⟨rfl, hrest⟩
    | bool b => cases b <;> exact absurd hkind (by simp [kind])
    | _ => exact absurd hkind (by simp [kind])
  | .obj d, w, r, s, hv, hw, _, _, h => by
    have hkind := kind_eq hfloat hv hw h
    cases w with
    | obj e =>
      rw [print, print, List.cons_append, List.cons_append, List.append_assoc, List.append_assoc] at h
      obtain ⟨rfl, hrest⟩ := fields_unique hfloat d e r s hv hw (List.cons.inj h).2
      exact ⟨rfl, hrest⟩
    | bool b => cases b <;> exact absurd hkind (by simp [kind])
    | _ => exact absurd hkind (by simp [kind])

theorem items_unique (hfloat : FloatTexts floatText) : ∀ (l m : List Json) (r s : Str), SettledItems l → SettledItems m →
    printItems floatText l ++ ']' :: r = printItems floatText m ++ ']' :: s → l = m ∧ r = s
  | [], [], _, _, _, _, h => ⟨rfl, (List.cons.inj h).2⟩
  | [], w :: m, r, s, _, hm, h => by
    rw [printItems, printItems, List.append_assoc] at h
    exact absurd h (print_ne_close hfloat hm.1 (by decide) _ _)
  | v :: l, [], r, s, hl, _, h => by
    rw [printItems, printItems, List.append_assoc] at h
    exact absurd h.symm (print_ne_close hfloat hl.1 (by decide) _ _)
  | v :: l, w :: m, r, s, hl, hm, h => by
    rw [printItems, printItems, List.append_assoc, List.append_assoc] at h
    obtain ⟨rfl, hmore⟩ := print_unique hfloat v w _ _ hl.1 hm.1 (delimited_more (.inl rfl) l r)
      (delimited_more (.inl rfl) m s) h
    obtain ⟨rfl, hrest⟩ := more_unique hfloat l m r s hl.2 hm.2 hmore
    exact ⟨rfl, hrest⟩

theorem more_unique (hfloat : FloatTexts floatText) : ∀ (l m : List Json) (r s : Str), SettledItems l → SettledItems m →
    printMore floatText l ++ ']' :: r = printMore floatText m ++ ']' :: s → l = m ∧ r = s
  | [], [], _, _, _, _, h => ⟨rfl, (List.cons.inj h).2⟩
  | [], _ :: _, _, _, _, _, h => absurd (List.cons.inj h).1 (by decide)
  | _ :: _, [], _, _, _, _, h => absurd (List.cons.inj h).1 (by decide)
  | v :: l, w :: m, r, s, hl, hm, h => by
    rw [printMore, printMore, List.cons_append, List.cons_append, List.cons_append, List.cons_append, List.append_assoc,
      List.append_assoc] at h
    obtain ⟨rfl, hmore⟩ := print_unique hfloat v w _ _ hl.1 hm.1 (delimited_more (.inl rfl) l r)
      (delimited_more (.inl rfl) m s) (List.cons.inj (List.cons.inj h).2).2
    obtain ⟨rfl, hrest⟩ := more_unique hfloat l m r s hl.2 hm.2 hmore
    exact ⟨rfl, hrest⟩

theorem fields_unique (hfloat : FloatTexts floatText) : ∀ (d e : List (Str × Json)) (r s : Str), SettledFields d →
    SettledFields e → printFields floatText d ++ '}' :: r = printFields floatText e ++ '}' :: s → d = e ∧ r = s
  | [], [], _, _, _, _, h => ⟨rfl, (List.cons.inj h).2⟩
  | [], (_, _) :: _, _, _, _, _, h => absurd (List.cons.inj h).1 (by decide)
  | (_, _) :: _, [], _, _, _, _, h => absurd (List.cons.inj h).1 (by decide)
  | (k, v) :: d, (j, w) :: e, r, s, hd, he, h => by
    rw [printFields, printFields] at h
    obtain ⟨rfl, htail⟩ := field_unique h
    rw [List.append_assoc, List.append_assoc] at htail
    obtain ⟨rfl, hmore⟩ := print_unique hfloat v w _ _ hd.1 he.1 (delimited_moreFields d r) (delimited_moreFields e s) htail
    obtain ⟨rfl, hrest⟩ := moreFields_unique hfloat d e r s hd.2 he.2 hmore
    exact ⟨rfl, hrest⟩

theorem moreFields_unique (hfloat : FloatTexts floatText) : ∀ (d e : List (Str × Json)) (r s : Str), SettledFields d →
    SettledFields e → printMoreFields floatText d ++ '}' :: r = printMoreFields floatText e ++ '}' :: s → d = e ∧ r = s
  | [], [], _, _, _, _, h => ⟨rfl, (List.cons.inj h).2⟩
  | [], (_, _) :: _, _, _, _, _, h => absurd (List.cons.inj h).1 (by decide)
  | (_, _) :: _, [], _, _, _, _, h => absurd (List.cons.inj h).1 (by decide)
  | (k, v) :: d, (j, w) :: e, r, s, hd, he, h => by
    rw [printMoreFields, printMoreFields, List.cons_append, List.cons_append, List.cons_append, List.cons_append] at h
    obtain ⟨rfl, htail⟩ := field_unique (List.cons.inj (List.cons.inj h).2).2
    rw [List.append_assoc, List.append_assoc] at htail
    obtain ⟨rfl, hmore⟩ := print_unique hfloat v w _ _ hd.1 he.1 (delimited_moreFields d r) (delimited_moreFields e s) htail
    obtain ⟨rfl, hrest⟩ := moreFields_unique hfloat d e r s hd.2 he.2 hmore
    exact ⟨rfl, hrest⟩

end

/-! ## Equal texts -/

mutual

theorem settled_sorted : ∀ v : Json, Settled v → Settled (sorted le v)
  | .null, h => h
  | .bool _, h => h
  | .int _, h => h
  | .float _, h => h
  | .str _, h => h
  | .arr l, h => settled_sortedItems l h
  | .obj d, h => by
    rw [sorted, Settled, settledFields_iff]
    intro kv hkv
    exact (settledFields_iff _).1 (settled_sortedFields d h) kv ((List.mem_insertionSort _).1 hkv)

theorem settled_sortedItems : ∀ l : List Json, SettledItems l → SettledItems (sortedItems le l)
  | [], h => h
  | v :: l, h => ⟨settled_sorted v h.1, settled_sortedItems l h.2⟩

theorem settled_sortedFields : ∀ d : List (Str × Json), SettledFields d → SettledFields (sortedFields le d)
  | [], h => h
  | (_, v) :: d, h => ⟨settled_sorted v h.1, settled_sortedFields d h.2⟩

end

/-- an order of keys -/
structure KeyOrder (le : Str → Str → Bool) : Prop where
  weak : Orders.Weak le
  antisymm : ∀ a b, le a b = true → le b a = true → a = b

/-- objects with the same entries in any order are the same once their keys are sorted -/
theorem insertionSort_eq_iff (hle : KeyOrder le) {d e : List (Str × Json)} (hd : (d.map Prod.fst).Nodup) :
    ((d.insertionSort fun a b => le a.1 b.1) = e.insertionSort fun a b => le a.1 b.1) ↔ d.Perm e := by
  constructor
  · intro h
    exact (List.perm_insertionSort _ d).symm.trans (h ▸ List.perm_insertionSort _ e)
  · intro h
    have hkey := hle.weak.key (Prod.fst : Str × Json → Str)
    refine List.Perm.eq_of_pairwise ?_ (Orders.pairwise_sorted hkey d) (Orders.pairwise_sorted hkey e)
      ((List.perm_insertionSort _ d).trans (h.trans (List.perm_insertionSort _ e).symm))
    intro a b ha hb hab hba
    have hfst : a.1 = b.1 := hle.antisymm _ _ hab hba
    have hmema : a ∈ d := (List.mem_insertionSort _).1 ha
    have hmemb : b ∈ d := h.mem_iff.2 ((List.mem_insertionSort _).1 hb)
    refine Prod.ext hfst ?_
    have hlookup := Dict.lookup_of_mem hd hmema
    rw [hfst, Dict.lookup_of_mem hd hmemb] at hlookup
    exact (Option.some.inj hlookup).symm

/-- the same number of entries, and every entry has an equal one -/
theorem perm_iff_entries {d e : List (Str × Json)} (hd : (d.map Prod.fst).Nodup) (he : (e.map Prod.fst).Nodup)
    (f : Json → Json) :
    (d.map fun kv => (kv.1, f kv.2)).Perm (e.map fun kv => (kv.1, f kv.2)) ↔
      d.length = e.length ∧ ∀ kv ∈ d, ∃ w, e.lookup kv.1 = some w ∧ f kv.2 = f w := by
  have hnodup : (d.map fun kv => (kv.1, f kv.2)).Nodup := by
    refine List.Nodup.of_map Prod.fst ?_
    rw [List.map_map]
    exact hd
  constructor
  · intro h
    refine ⟨by simpa using h.length_eq, fun kv hkv => ?_⟩
    obtain ⟨kw, hkw, heq⟩ := List.mem_map.1 (h.mem_iff.1 (List.mem_map_of_mem hkv))
    obtain ⟨hkey, hvalue⟩ := Prod.mk.inj heq
    exact ⟨kw.2, hkey ▸ Dict.lookup_of_mem he hkw, hvalue.symm⟩
  · rintro ⟨hlength, hentries⟩
    refine (List.subperm_of_subset hnodup fun p hp => ?_).perm_of_length_le (by simp [hlength])
    obtain ⟨kv, hkv, rfl⟩ := List.mem_map.1 hp
    obtain ⟨w, hw, hvalue⟩ := hentries kv hkv
    exact List.mem_map.2 ⟨(kv.1, w), Dict.mem_of_lookup hw, by rw [hvalue]⟩

theorem eqvDict_iff {d e : List (Str × Json)} :
    eqvDict d e = true ↔ ∀ kv ∈ d, ∃ w, e.lookup kv.1 = some w ∧ eqv kv.2 w = true := by
  induction d with
  | nil => simp [eqvDict]
  | cons kv d ih =>
    rw [eqvDict, Bool.and_eq_true, ih, List.forall_mem_cons]
    refine and_congr_left fun _ => ?_
    cases e.lookup kv.1 <;> simp

/-- a bool is a number, and not one of these -/
theorem eqv_bool_float (b : Bool) {x : ℚ} (hx : x.den ≠ 1) :
    eqv (.bool b) (.float x) = false ∧ eqv (.float x) (.bool b) = false := by
  have hne : x ≠ if b then 1 else 0 := by
    rintro rfl
    cases b <;> exact hx rfl
  rw [eqv, eqv, number, number, beq_eq_false_iff_ne, beq_eq_false_iff_ne, Ne, Ne, Option.some.injEq, Option.some.injEq]
  exact ⟨hne, hne.symm⟩

mutual

/-- **Equal but for the order of keys**, where Python takes no other values for equal. -/
theorem sorted_eq_iff (hle : KeyOrder le) : ∀ v w : Json, Settled v → Settled w → WellFormed v → WellFormed w →
    (sorted le v = sorted le w ↔ eqv v w = true)
  | .null, w, _, _, _, _ => by cases w <;> simp [sorted, eqv]
  | .bool a, w, _, hw, _, _ => by
    cases w with
    | bool b => cases a <;> cases b <;> simp [sorted, eqv, number]
    | int n => exact absurd hw (by simp [Settled])
    | float y => exact iff_of_false (by simp [sorted]) (Bool.eq_false_iff.1 (eqv_bool_float a hw).1)
    | _ => simp [sorted, eqv, number]
  | .int _, _, h, _, _, _ => absurd h (by simp [Settled])
  | .float x, w, hv, hw, _, _ => by
    cases w with
    | bool b => exact iff_of_false (by simp [sorted]) (Bool.eq_false_iff.1 (eqv_bool_float b hv).2)
    | int n => exact absurd hw (by simp [Settled])
    | float y =>
      simp only [sorted, eqv, number, beq_iff_eq, Json.float.injEq, Option.some.injEq]
      exact eq_comm
    | _ => simp [sorted, eqv, number]
  | .str s, w, _, _, _, _ => by cases w <;> simp [sorted, eqv]
  | .arr l, w, hv, hw, hl, hm => by
    cases w with
    | arr m =>
      rw [sorted, sorted, eqv, Json.arr.injEq]
      exact sortedItems_eq_iff hle l m hv hw hl hm
    | _ => simp [sorted, eqv]
  | .obj d, w, hv, hw, hd, he => by
    cases w with
    | obj e =>
      rw [WellFormed] at hd he
      have hkeys : ((sortedFields le d).map Prod.fst).Nodup := by
        rw [sortedFields_eq, List.map_map]
        exact hd.1
      rw [sorted, sorted, eqv, Json.obj.injEq, insertionSort_eq_iff hle hkeys, sortedFields_eq, sortedFields_eq,
        perm_iff_entries hd.1 he.1, Bool.and_eq_true, beq_iff_eq, eqvDict_iff]
      refine and_congr_right fun _ => ?_
      exact fields_eq_iff hle d e hv ((settledFields_iff e).1 hw) hd.2 ((wellFormedDict_iff e).1 he.2)
    | _ => simp [sorted, eqv]

theorem sortedItems_eq_iff (hle : KeyOrder le) : ∀ l m : List Json, SettledItems l → SettledItems m → WellFormedList l →
    WellFormedList m → (sortedItems le l = sortedItems le m ↔ eqvList l m = true)
  | [], [], _, _, _, _ => by simp [sortedItems, eqvList]
  | [], _ :: _, _, _, _, _ => by simp [sortedItems, eqvList]
  | _ :: _, [], _, _, _, _ => by simp [sortedItems, eqvList]
  | v :: l, w :: m, hl, hm, hl', hm' => by
    rw [sortedItems, sortedItems, eqvList, List.cons.injEq, Bool.and_eq_true, sorted_eq_iff hle v w hl.1 hm.1 hl'.1 hm'.1,
      sortedItems_eq_iff hle l m hl.2 hm.2 hl'.2 hm'.2]

theorem fields_eq_iff (hle : KeyOrder le) : ∀ d e : List (Str × Json), SettledFields d → (∀ kv ∈ e, Settled kv.2) →
    WellFormedDict d → (∀ kv ∈ e, WellFormed kv.2) →
    ((∀ kv ∈ d, ∃ w, e.lookup kv.1 = some w ∧ sorted le kv.2 = sorted le w) ↔
      ∀ kv ∈ d, ∃ w, e.lookup kv.1 = some w ∧ eqv kv.2 w = true)
  | [], _, _, _, _, _ => by simp
  | (k, v) :: d, e, hd, he, hd', he' => by
    rw [List.forall_mem_cons, List.forall_mem_cons, fields_eq_iff hle d e hd.2 he hd'.2 he']
    refine and_congr_left fun _ => exists_congr fun w => and_congr_right fun hw => ?_
    exact sorted_eq_iff hle v w hd.1 (he _ (Dict.mem_of_lookup hw)) hd'.1 (he' _ (Dict.mem_of_lookup hw))

end

/-- **Values with the same text** are equal in Python. -/
theorem dumps_eq_iff (hfloat : FloatTexts floatText) (hle : KeyOrder le) {v w : Json} (hv : Settled v) (hw : Settled w)
    (hv' : WellFormed v) (hw' : WellFormed w) : dumps floatText le v = dumps floatText le w ↔ eqv v w = true := by
  rw [← sorted_eq_iff hle v w hv hw hv' hw', dumps_eq_print, dumps_eq_print]
  refine ⟨fun h => ?_, fun h => by rw [h]⟩
  have hend : Delimited [] := by simp [Delimited]
  exact (print_unique hfloat _ _ [] [] (settled_sorted v hv) (settled_sorted w hw) hend hend (by rw [h])).1

end Json
