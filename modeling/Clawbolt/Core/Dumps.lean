/-
The text that `json.dumps(value, sort_keys=True)` gives for a JSON value. The `repr` of a float and the order of keys are
parameters.

- `dumps_iff`: what can be found in the text, when quotes, brackets, commas and spaces part what is searched for;
- `within_dumps`: a key or a scalar stands in the text between such characters.
-/
import Mathlib.Tactic
import Clawbolt.Core.Json

namespace Json

open Text (Str)

def hexDigit (n : ℕ) : Char := if n < 10 then Char.ofNat (48 + n) else Char.ofNat (87 + n)

/-- `'\\u{0:04x}'.format(n)` -/
def unicodeEscape (n : ℕ) : Str :=
  ['\\', 'u', hexDigit (n / 4096 % 16), hexDigit (n / 256 % 16), hexDigit (n / 16 % 16), hexDigit (n % 16)]

/-- printed as it is -/
def plain (c : Char) : Bool := ' ' ≤ c && c ≤ '~' && c ≠ '"' && c ≠ '\\'

def escapeChar (c : Char) : Str :=
  if plain c then [c]
  else if c = '"' then ['\\', '"']
  else if c = '\\' then ['\\', '\\']
  else if c = '\n' then ['\\', 'n']
  else if c = '\r' then ['\\', 'r']
  else if c = '\t' then ['\\', 't']
  else if c.toNat = 12 then ['\\', 'f']
  else if c.toNat = 8 then ['\\', 'b']
  else if c.toNat < 0x10000 then unicodeEscape c.toNat
  -- a pair of surrogates
  else unicodeEscape (0xd800 + (c.toNat - 0x10000) / 1024) ++ unicodeEscape (0xdc00 + (c.toNat - 0x10000) % 1024)

/-- what stands between the quotes of a string -/
def escape (s : Str) : Str := s.flatMap escapeChar

variable (floatText : ℚ → Str) (le : Str → Str → Bool)

mutual

def dumps : Json → Str
  | .null => "null".toList
  | .bool b => if b then "true".toList else "false".toList
  | .int n => (toString n).toList
  | .float x => floatText x
  | .str s => '"' :: (escape s ++ ['"'])
  | .arr l => '[' :: (Text.join ", ".toList (dumpsItems l) ++ [']'])
  | .obj d =>
    '{' :: (Text.join ", ".toList (((dumpsFields d).insertionSort fun a b => le a.1 b.1).map fun kv =>
      '"' :: (escape kv.1 ++ '"' :: ':' :: ' ' :: kv.2)) ++ ['}'])

def dumpsItems : List Json → List Str
  | [] => []
  | v :: l => dumps v :: dumpsItems l

def dumpsFields : List (Str × Json) → List (Str × Str)
  | [] => []
  | (k, v) :: d => (k, dumps v) :: dumpsFields d

end

mutual

/-- the keys and the scalars of a value, at any depth -/
def atoms : Json → List Json
  | .arr l => atomsOfItems l
  | .obj d => atomsOfFields d
  | v => [v]

def atomsOfItems : List Json → List Json
  | [] => []
  | v :: l => atoms v ++ atomsOfItems l

def atomsOfFields : List (Str × Json) → List Json
  | [] => []
  | (k, v) :: d => .str k :: (atoms v ++ atomsOfFields d)

end

/-- the text of a key or a scalar, without quotes -/
def atomText : Json → Str
  | .str s => escape s
  | .arr _ => []
  | .obj _ => []
  | v => dumps floatText le v

/-- the characters around keys and scalars -/
def punctuation : List Char := ['"', ' ', ',', '[', ']', '{', '}']

/-! ## What can be found in the text -/

/-- quotes, brackets, commas and spaces part what `p` looks for, and a colon alone is not it -/
structure Parted (p : Str → Prop) : Prop where
  nil : ¬ p []
  colon : ¬ p [':']
  split : ∀ c ∈ punctuation, ∀ s t, p (s ++ c :: t) ↔ p s ∨ p t

variable {floatText le} {p : Str → Prop}

theorem Parted.cons (h : Parted p) {c : Char} (hc : c ∈ punctuation) (t : Str) : p (c :: t) ↔ p t := by
  have hsplit := h.split c hc [] t
  rw [List.nil_append] at hsplit
  rw [hsplit]
  exact or_iff_right h.nil

theorem Parted.concat (h : Parted p) {c : Char} (hc : c ∈ punctuation) (s : Str) : p (s ++ [c]) ↔ p s := by
  rw [h.split c hc s []]
  exact or_iff_left h.nil

theorem join_cons_cons (t u : Str) (ts : List Str) :
    Text.join ", ".toList (t :: u :: ts) = t ++ ',' :: ' ' :: Text.join ", ".toList (u :: ts) := by
  rw [Text.join, List.intercalate_cons_cons, List.append_assoc]
  rfl

theorem Parted.join (h : Parted p) (ts : List Str) : p (Text.join ", ".toList ts) ↔ ∃ t ∈ ts, p t := by
  induction ts with
  | nil => exact iff_of_false h.nil fun ⟨_, ht, _⟩ => absurd ht List.not_mem_nil
  | cons t ts ih =>
    rw [List.exists_mem_cons_iff, ← ih]
    cases ts with
    | nil =>
      rw [Text.join, List.intercalate_singleton]
      exact (or_iff_left h.nil).symm
    | cons u ts => rw [join_cons_cons, h.split ',' (by decide), h.cons (by decide)]

/-- a field of an object -/
theorem Parted.field (h : Parted p) (k t : Str) : p ('"' :: (escape k ++ '"' :: ':' :: ' ' :: t)) ↔ p (escape k) ∨ p t := by
  have hcolon : p (':' :: ' ' :: t) ↔ p t := by
    rw [← List.singleton_append, h.split ' ' (by decide)]
    exact or_iff_right h.colon
  rw [h.cons (by decide), h.split '"' (by decide), hcolon]

mutual

/-- **What is found in the text of a value**, is found in one of its keys or scalars. -/
theorem dumps_iff (h : Parted p) : ∀ v : Json, p (dumps floatText le v) ↔ ∃ a ∈ atoms v, p (atomText floatText le a)
  | .null => by simp [atoms, atomText]
  | .bool b => by simp [atoms, atomText]
  | .int n => by simp [atoms, atomText]
  | .float x => by simp [atoms, atomText]
  | .str s => by
    rw [dumps, h.cons (by decide), h.concat (by decide)]
    simp [atoms, atomText]
  | .arr l => by
    rw [dumps, h.cons (by decide), h.concat (by decide), h.join, atoms]
    exact dumpsItems_iff h l
  | .obj d => by
    rw [dumps, h.cons (by decide), h.concat (by decide), h.join, atoms, ← dumpsFields_iff h d]
    simp only [List.mem_map, List.mem_insertionSort, exists_exists_and_eq_and, h.field]

theorem dumpsItems_iff (h : Parted p) : ∀ l : List Json,
    (∃ t ∈ dumpsItems floatText le l, p t) ↔ ∃ a ∈ atomsOfItems l, p (atomText floatText le a)
  | [] => by simp [dumpsItems, atomsOfItems]
  | v :: l => by
    simp only [dumpsItems, atomsOfItems, List.exists_mem_cons_iff, List.mem_append, or_and_right, exists_or]
    rw [dumps_iff h v, dumpsItems_iff h l]

theorem dumpsFields_iff (h : Parted p) : ∀ d : List (Str × Json),
    (∃ kv ∈ dumpsFields floatText le d, p (escape kv.1) ∨ p kv.2) ↔
      ∃ a ∈ atomsOfFields d, p (atomText floatText le a)
  | [] => by simp [dumpsFields, atomsOfFields]
  | (k, v) :: d => by
    simp only [dumpsFields, atomsOfFields, List.exists_mem_cons_iff, List.mem_append, or_and_right, exists_or]
    rw [dumps_iff h v, dumpsFields_iff h d, or_assoc]
    rfl

end

/-! ## Where keys and scalars stand -/

/-- a text in a longer one, with nothing or punctuation next to it -/
def Within (t s : Str) : Prop :=
  ∃ x y, s = x ++ t ++ y ∧ (∀ c ∈ x.getLast?, c ∈ punctuation) ∧ ∀ c ∈ y.head?, c ∈ punctuation

theorem Within.refl (t : Str) : Within t t := ⟨[], [], (List.append_nil t).symm, by simp, by simp⟩

theorem Within.trans {t s u : Str} (h : Within t s) (h' : Within s u) : Within t u := by
  obtain ⟨x, y, rfl, hx, hy⟩ := h
  obtain ⟨x', y', rfl, hx', hy'⟩ := h'
  refine ⟨x' ++ x, y ++ y', by simp only [List.append_assoc], ?_, ?_⟩
  · intro c hc
    rw [List.getLast?_append, Option.mem_def, Option.or_eq_some_iff] at hc
    exact hc.elim (hx c) fun h => hx' c h.2
  · intro c hc
    rw [List.head?_append, Option.mem_def, Option.or_eq_some_iff] at hc
    exact hc.elim (hy c) fun h => hy' c h.2

/-- what stands between two punctuation characters -/
theorem within_of_between {c d : Char} (hc : c ∈ punctuation) (hd : d ∈ punctuation) (x t y : Str) :
    Within t (x ++ c :: (t ++ d :: y)) := by
  refine ⟨x ++ [c], d :: y, by simp only [List.append_assoc, List.cons_append, List.nil_append], ?_, ?_⟩
  · intro e he
    rw [List.getLast?_concat, Option.mem_some] at he
    exact he ▸ hc
  · intro e he
    rw [List.head?_cons, Option.mem_some] at he
    exact he ▸ hd

theorem within_join {t : Str} {ts : List Str} (h : t ∈ ts) : Within t (Text.join ", ".toList ts) := by
  induction ts with
  | nil => exact absurd h List.not_mem_nil
  | cons u ts ih =>
    cases ts with
    | nil =>
      rw [List.mem_singleton.1 h, Text.join, List.intercalate_singleton]
      exact Within.refl u
    | cons v ts =>
      rw [join_cons_cons]
      obtain rfl | h := List.mem_cons.1 h
      · exact ⟨[], _, rfl, by simp, by simp [punctuation]⟩
      · refine (ih h).trans ⟨u ++ [',', ' '], [], ?_, ?_, by simp⟩
        · simp only [List.append_assoc, List.cons_append, List.nil_append, List.append_nil]
        · simp [punctuation]

mutual

/-- a key or a scalar stands in the text of a value -/
theorem within_dumps : ∀ (v : Json), ∀ a ∈ atoms v, Within (atomText floatText le a) (dumps floatText le v)
  | .null, a, ha => by
    rw [List.mem_singleton.1 ha]
    exact Within.refl _
  | .bool b, a, ha => by
    rw [List.mem_singleton.1 ha]
    exact Within.refl _
  | .int n, a, ha => by
    rw [List.mem_singleton.1 ha]
    exact Within.refl _
  | .float x, a, ha => by
    rw [List.mem_singleton.1 ha]
    exact Within.refl _
  | .str s, a, ha => by
    rw [List.mem_singleton.1 ha]
    exact within_of_between (by decide) (by decide) [] (escape s) []
  | .arr l, a, ha => by
    obtain ⟨t, ht, hwithin⟩ := within_dumpsItems l a ha
    exact (hwithin.trans (within_join ht)).trans (within_of_between (by decide) (by decide) [] _ [])
  | .obj d, a, ha => by
    obtain ⟨kv, hkv, hwithin⟩ := within_dumpsFields d a ha
    have hjoin := within_join (List.mem_map_of_mem
      (f := fun kv : Str × Str => '"' :: (escape kv.1 ++ '"' :: ':' :: ' ' :: kv.2))
      ((List.mem_insertionSort (fun a b => le a.1 b.1)).2 hkv))
    exact (hwithin.trans hjoin).trans (within_of_between (by decide) (by decide) [] _ [])

theorem within_dumpsItems : ∀ (l : List Json), ∀ a ∈ atomsOfItems l,
    ∃ t ∈ dumpsItems floatText le l, Within (atomText floatText le a) t
  | [], a, ha => absurd ha List.not_mem_nil
  | v :: l, a, ha => by
    obtain ha | ha := List.mem_append.1 ha
    · exact ⟨_, List.mem_cons_self, within_dumps v a ha⟩
    · obtain ⟨t, ht, hwithin⟩ := within_dumpsItems l a ha
      exact ⟨t, List.mem_cons_of_mem _ ht, hwithin⟩

theorem within_dumpsFields : ∀ (d : List (Str × Json)), ∀ a ∈ atomsOfFields d,
    ∃ kv ∈ dumpsFields floatText le d,
      Within (atomText floatText le a) ('"' :: (escape kv.1 ++ '"' :: ':' :: ' ' :: kv.2))
  | [], a, ha => absurd ha List.not_mem_nil
  | (k, v) :: d, a, ha => by
    obtain rfl | ha := List.mem_cons.1 ha
    · exact ⟨_, List.mem_cons_self, within_of_between (by decide) (by decide) [] (escape k) _⟩
    · obtain ha | ha := List.mem_append.1 ha
      · refine ⟨_, List.mem_cons_self, (within_dumps v a ha).trans ⟨'"' :: (escape k ++ ['"', ':', ' ']), [], ?_, ?_, by simp⟩⟩
        · simp only [List.append_assoc, List.cons_append, List.nil_append, List.append_nil]
        · simp [punctuation, List.getLast?_cons, List.getLast?_append]
      · obtain ⟨kv, hkv, hwithin⟩ := within_dumpsFields d a ha
        exact ⟨kv, List.mem_cons_of_mem _ hkv, hwithin⟩

end

/-! ## Characters -/

theorem escape_append (s t : Str) : escape (s ++ t) = escape s ++ escape t := List.flatMap_append

theorem escape_plain {s : Str} (h : ∀ c ∈ s, plain c = true) : escape s = s := by
  induction s with
  | nil => rfl
  | cons c s ih =>
    rw [escape, List.flatMap_cons, escapeChar, if_pos (h c List.mem_cons_self), ← escape,
      ih fun d hd => h d (List.mem_cons_of_mem c hd)]
    rfl

theorem ascii_of_all {t : Str} (h : t.all (fun c => c.toNat < 128) = true) : ∀ c ∈ t, c.toNat < 128 := by
  intro c hc
  exact of_decide_eq_true (List.all_eq_true.1 h c hc)

theorem hexDigit_ascii (n : ℕ) : (hexDigit (n % 16)).toNat < 128 := by
  have hall : ∀ m : Fin 16, (hexDigit m).toNat < 128 := by decide
  exact hall ⟨n % 16, Nat.mod_lt _ (by decide)⟩

theorem unicodeEscape_ascii (n : ℕ) : ∀ c ∈ unicodeEscape n, c.toNat < 128 := by
  apply ascii_of_all
  simp only [unicodeEscape, List.all_cons, List.all_nil, hexDigit_ascii, decide_true, Bool.and_true]
  decide

theorem plain_ascii {c : Char} (h : plain c = true) : c.toNat < 128 := by
  simp only [plain, Bool.and_eq_true, decide_eq_true_eq] at h
  have hle : c.toNat ≤ 126 := h.1.1.2
  omega

theorem escapeChar_ascii (c : Char) : ∀ d ∈ escapeChar c, d.toNat < 128 := by
  rw [escapeChar]
  split_ifs with hplain
  · intro d hd
    rw [List.mem_singleton.1 hd]
    exact plain_ascii hplain
  all_goals first
    | exact unicodeEscape_ascii _
    | exact List.forall_mem_append.2 ⟨unicodeEscape_ascii _, unicodeEscape_ascii _⟩
    | exact ascii_of_all rfl

theorem toString_int_ascii (n : ℤ) : ∀ c ∈ (toString n).toList, c.toNat < 128 := by
  have hdigit : ∀ m : ℕ, ∀ c ∈ (Nat.repr m).toList, c.toNat < 128 := by
    intro m c hc
    rw [Nat.toList_repr] at hc
    have hc := Nat.isDigit_of_mem_toDigits (by decide) (by decide) hc
    simp only [Char.isDigit, Bool.and_eq_true, decide_eq_true_eq] at hc
    have hle : c.toNat ≤ 57 := hc.2
    omega
  cases n with
  | ofNat m => exact hdigit m
  | negSucc m =>
    intro c hc
    have hcons : (toString (Int.negSucc m)).toList = '-' :: (Nat.repr (m + 1)).toList := by
      simp [toString, Int.repr]
    rw [hcons] at hc
    obtain rfl | hc := List.mem_cons.1 hc
    · decide
    · exact hdigit _ c hc

theorem atomText_ascii (hfloat : ∀ x, ∀ c ∈ floatText x, c.toNat < 128) (a : Json) :
    ∀ c ∈ atomText floatText le a, c.toNat < 128 := by
  cases a with
  | null => exact ascii_of_all (t := "null".toList) (by decide)
  | bool b =>
    cases b with
    | true => exact ascii_of_all (t := "true".toList) (by decide)
    | false => exact ascii_of_all (t := "false".toList) (by decide)
  | int n => exact toString_int_ascii n
  | float x => exact hfloat x
  | str s =>
    intro c hc
    obtain ⟨d, _, hd⟩ := List.mem_flatMap.1 hc
    exact escapeChar_ascii d c hd
  | arr l => exact fun c hc => absurd hc List.not_mem_nil
  | obj d => exact fun c hc => absurd hc List.not_mem_nil

/-- the text is ASCII -/
theorem dumps_ascii (hfloat : ∀ x, ∀ c ∈ floatText x, c.toNat < 128) (v : Json) :
    ∀ c ∈ dumps floatText le v, c.toNat < 128 := by
  have hparted : Parted fun t => ∃ c ∈ t, 128 ≤ c.toNat := by
    refine ⟨by simp, by simp, ?_⟩
    intro c hc s t
    have hascii : ¬ 128 ≤ c.toNat := not_le.2 (ascii_of_all (t := punctuation) (by decide) c hc)
    simp only [List.mem_append, List.mem_cons, or_and_right, exists_or, exists_eq_left, hascii, false_or]
  have hnone : ¬ ∃ c ∈ dumps floatText le v, 128 ≤ c.toNat := by
    rw [dumps_iff hparted]
    rintro ⟨a, _, c, hc, hlarge⟩
    exact absurd (atomText_ascii hfloat a c hc) (not_lt.2 hlarge)
  intro c hc
  by_contra hlarge
  exact hnone ⟨c, hc, not_lt.1 hlarge⟩

/-- a character that is not printed as it is starts with a backslash -/
theorem escapeChar_escaped {c : Char} (h : plain c = false) : ∃ t, escapeChar c = '\\' :: t := by
  rw [escapeChar, if_neg (Bool.eq_false_iff.1 h)]
  split_ifs <;> exact ⟨_, rfl⟩

end Json
