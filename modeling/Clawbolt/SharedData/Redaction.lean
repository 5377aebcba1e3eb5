/-
`pii_redaction.py`: texts with their e-mail, card, phone and token shapes replaced by labels, and values with every string
leaf so replaced.

- `redactPii_clean`: what comes out holds none of the shapes;
- `redactPii_of_clean`, `redactPii_redactPii`: a text without them is left as it is, so redacting twice is redacting once;
- `at_redact`: a value is redacted at each of its places, and has the same places.

A label starts and ends with a bracket, which is in none of the classes, so that a replacement neither makes a shape nor
joins two texts to one.
-/
import Mathlib.Tactic
import Clawbolt.Core.Text
import Clawbolt.Core.Pattern

namespace Clawbolt.SharedData

open Text (Str)
open Pattern (Item Shape)

/-- `\d` in a version of the Unicode database; of the ASCII characters, the digits -/
structure Unicode where
  isDecimal : Char → Bool
  ascii : ∀ c : Char, c.toNat < 128 → isDecimal c = c.isDigit

variable (u : Unicode)

/-! ## The patterns -/

/-- `[a-zA-Z0-9._%+\-]+@[a-zA-Z0-9.\-]+\.[a-zA-Z]{2,}` -/
def email : Shape Char where
  items := [.many 1 fun c => c.isAlphanum || c ∈ ['.', '_', '%', '+', '-'], .exactly 1 (· == '@'),
    .many 1 fun c => c.isAlphanum || c ∈ ['.', '-'], .exactly 1 (· == '.'), .many 2 Char.isAlpha]
  positive := ⟨_, List.mem_cons_self, Nat.one_pos⟩

/-- `\d{4}[\s\-]?\d{4}[\s\-]?\d{4}[\s\-]?\d{4}` -/
def creditCard : Shape Char where
  items := [.exactly 4 u.isDecimal, .optional fun c => Text.isSpace c || c == '-', .exactly 4 u.isDecimal,
    .optional fun c => Text.isSpace c || c == '-', .exactly 4 u.isDecimal,
    .optional fun c => Text.isSpace c || c == '-', .exactly 4 u.isDecimal]
  positive := ⟨_, List.mem_cons_self, Nat.succ_pos 3⟩

/-- `\+\d[\d\-\s.]{7,}\d` -/
def phoneIntl : Shape Char where
  items := [.exactly 1 (· == '+'), .exactly 1 u.isDecimal,
    .many 7 fun c => u.isDecimal c || Text.isSpace c || c ∈ ['-', '.'], .exactly 1 u.isDecimal]
  positive := ⟨_, List.mem_cons_self, Nat.one_pos⟩

/-- `\(\d{3}\)\s*\d{3}[\s\-.]?\d{4}` -/
def phoneUs : Shape Char where
  items := [.exactly 1 (· == '('), .exactly 3 u.isDecimal, .exactly 1 (· == ')'), .many 0 Text.isSpace,
    .exactly 3 u.isDecimal, .optional fun c => Text.isSpace c || c ∈ ['-', '.'], .exactly 4 u.isDecimal]
  positive := ⟨_, List.mem_cons_self, Nat.one_pos⟩

/-- `[A-Za-z0-9_\-]{20,}` -/
def token : Shape Char where
  items := [.many 20 fun c => c.isAlphanum || c ∈ ['_', '-']]
  positive := ⟨_, List.mem_cons_self, Nat.succ_pos 19⟩

def redactPii (text : Str) : Str :=
  if text = [] then text
  else
    let result := email.sub "[EMAIL]".toList 0 text
    let result := (creditCard u).sub "[CARD]".toList 0 result
    let result := (phoneIntl u).sub "[PHONE]".toList 0 result
    let result := (phoneUs u).sub "[PHONE]".toList 0 result
    token.sub "[TOKEN]".toList 0 result

/-- the patterns in their order, each with its label -/
def redactions : List (Shape Char × Str) :=
  [(email, "[EMAIL]".toList), (creditCard u, "[CARD]".toList), (phoneIntl u, "[PHONE]".toList),
    (phoneUs u, "[PHONE]".toList), (token, "[TOKEN]".toList)]

/-- no part of the text has one of the five shapes -/
def Clean (text : Str) : Prop := Pattern.AllFree (redactions u) text

instance (text : Str) : Decidable (Clean u text) := by unfold Clean; infer_instance

theorem redactPii_eq (text : Str) : redactPii u text = Pattern.subAll (redactions u) text := by
  unfold redactPii
  split_ifs with h
  · rw [h]
    rfl
  · rfl

/-! ## The labels -/

section

variable {u}

theorem letter_range {c : Char} (h : c.isAlpha = true) : (65 ≤ c.toNat ∧ c.toNat ≤ 90) ∨ (97 ≤ c.toNat ∧ c.toNat ≤ 122) := by
  have hcases : c.isUpper = true ∨ c.isLower = true := Bool.or_eq_true_iff.1 h
  refine hcases.imp (fun hupper => ?_) fun hlower => ?_
  · have hrange : c.val ≥ 'A'.val ∧ c.val ≤ 'Z'.val := of_decide_eq_true hupper
    exact hrange.imp id id
  · obtain ⟨hlow, hhigh⟩ := Bool.and_eq_true_iff.1 hlower
    exact ⟨of_decide_eq_true hlow, of_decide_eq_true hhigh⟩

theorem isDecimal_of_letter {c : Char} (h : c.isAlpha = true) : u.isDecimal c = false := by
  have hrange := letter_range h
  rw [u.ascii c (by omega)]
  simp only [Char.isDigit, UInt32.le_iff_toNat_le, ge_iff_le, Bool.and_eq_false_iff, decide_eq_false_iff_not, not_le]
  exact Or.inr (lt_of_lt_of_le (by decide) (show 65 ≤ c.toNat by omega))

theorem ne_of_letter {c b : Char} (h : c.isAlpha = true) (hb : b.isAlpha = false) : (c == b) = false := by
  rw [beq_eq_false_iff_ne]
  rintro rfl
  rw [h] at hb
  cases hb

/-- a bracket is in none of the classes -/
theorem bar_bracket {b : Char} (hb : b = '[' ∨ b = ']') {p : Shape Char × Str} (hp : p ∈ redactions u) :
    Pattern.Bar p.1.items b := by
  have hdigit : u.isDecimal b = false := by
    rcases hb with rfl | rfl <;> exact u.ascii _ (by decide)
  have hspace : Text.isSpace b = false := by rcases hb with rfl | rfl <;> decide
  have halnum : b.isAlphanum = false := by rcases hb with rfl | rfl <;> decide
  have halpha : b.isAlpha = false := by rcases hb with rfl | rfl <;> decide
  have hother : b ∉ ['.', '_', '%', '+', '-', '@', '(', ')'] := by rcases hb with rfl | rfl <;> decide
  simp only [List.mem_cons, List.not_mem_nil, or_false, not_or] at hother
  simp only [redactions, List.mem_cons, List.not_mem_nil, or_false] at hp
  intro i hi
  rcases hp with rfl | rfl | rfl | rfl | rfl <;>
    simp only [email, creditCard, phoneIntl, phoneUs, token, List.mem_cons, List.not_mem_nil, or_false] at hi <;>
    rcases hi with rfl | rfl | rfl | rfl | rfl | rfl | rfl <;>
    simp [Item.many, Item.exactly, Item.optional, hdigit, hspace, halnum, halpha, hother]

/-- a short run of letters has none of the shapes -/
theorem free_of_letters {t : Str} (hshort : t.length < 20) (hletters : ∀ c ∈ t, c.isAlpha = true) {p : Shape Char × Str}
    (hp : p ∈ redactions u) : Pattern.Free p.1.items t := by
  simp only [redactions, List.mem_cons, List.not_mem_nil, or_false] at hp
  rcases hp with rfl | rfl | rfl | rfl | rfl
  · exact Pattern.free_of_lacks (i := .exactly 1 (· == '@')) (List.mem_cons_of_mem _ List.mem_cons_self) Nat.one_pos
      fun c hc => ne_of_letter (hletters c hc) (by decide)
  · exact Pattern.free_of_lacks (i := .exactly 4 u.isDecimal) List.mem_cons_self (Nat.succ_pos 3)
      fun c hc => isDecimal_of_letter (hletters c hc)
  · exact Pattern.free_of_lacks (i := .exactly 1 (· == '+')) List.mem_cons_self Nat.one_pos
      fun c hc => ne_of_letter (hletters c hc) (by decide)
  · exact Pattern.free_of_lacks (i := .exactly 1 (· == '(')) List.mem_cons_self Nat.one_pos
      fun c hc => ne_of_letter (hletters c hc) (by decide)
  · exact Pattern.free_of_short hshort

/-- a short run of letters between brackets is sealed for every pattern -/
theorem sealed_label {t : Str} (hshort : t.length < 20) (hletters : ∀ c ∈ t, c.isAlpha = true) {p : Shape Char × Str}
    (hp : p ∈ redactions u) : Pattern.Sealed p.1.items ('[' :: (t ++ [']'])) :=
  ⟨'[', t, ']', rfl, bar_bracket (Or.inl rfl) hp, bar_bracket (Or.inr rfl) hp, free_of_letters hshort hletters hp⟩

theorem redactions_sealed : ∀ p ∈ redactions u, ∀ q ∈ redactions u, Pattern.Sealed p.1.items q.2 := by
  intro p hp q hq
  have hlabel : q.2 ∈ ["[EMAIL]".toList, "[CARD]".toList, "[PHONE]".toList, "[PHONE]".toList, "[TOKEN]".toList] :=
    List.mem_map_of_mem (f := Prod.snd) hq
  simp only [List.mem_cons, List.not_mem_nil, or_false] at hlabel
  rcases hlabel with h | h | h | h | h <;> rw [h]
  · exact sealed_label (t := "EMAIL".toList) (by decide) (List.all_eq_true.1 rfl) hp
  · exact sealed_label (t := "CARD".toList) (by decide) (List.all_eq_true.1 rfl) hp
  · exact sealed_label (t := "PHONE".toList) (by decide) (List.all_eq_true.1 rfl) hp
  · exact sealed_label (t := "PHONE".toList) (by decide) (List.all_eq_true.1 rfl) hp
  · exact sealed_label (t := "TOKEN".toList) (by decide) (List.all_eq_true.1 rfl) hp

end

/-- **Redacted.** None of the shapes is left. -/
theorem redactPii_clean (text : Str) : Clean u (redactPii u text) := by
  rw [redactPii_eq]
  exact Pattern.subAll_free redactions_sealed text

theorem redactPii_of_clean {text : Str} (h : Clean u text) : redactPii u text = text := by
  rw [redactPii_eq]
  exact Pattern.subAll_of_free h

theorem redactPii_redactPii (text : Str) : redactPii u (redactPii u text) = redactPii u text :=
  redactPii_of_clean u (redactPii_clean u text)

/-! ## Values -/

/-- a value of Python that JSON can hold, or a tuple; a float by its bits -/
inductive Value where
  | none
  | bool (b : Bool)
  | int (n : ℤ)
  | float (bits : BitVec 64)
  | str (s : Str)
  | list (l : List Value)
  | tuple (l : List Value)
  | dict (d : List (Str × Value))

mutual

def redactPiiRecursive : Value → Value
  | .str s => .str (redactPii u s)
  | .dict d => .dict (redactValues d)
  | .list l => .list (redactItems l)
  | .tuple l => .tuple (redactItems l)
  | v => v

def redactItems : List Value → List Value
  | [] => []
  | v :: l => redactPiiRecursive v :: redactItems l

/-- the keys stay as they are -/
def redactValues : List (Str × Value) → List (Str × Value)
  | [] => []
  | (k, v) :: d => (k, redactPiiRecursive v) :: redactValues d

end

theorem redactItems_eq (l : List Value) : redactItems u l = l.map (redactPiiRecursive u) := by
  induction l with
  | nil => rfl
  | cons v l ih => rw [redactItems, ih, List.map_cons]

theorem redactValues_eq (d : List (Str × Value)) : redactValues u d = d.map fun kv => (kv.1, redactPiiRecursive u kv.2) := by
  induction d with
  | nil => rfl
  | cons kv d ih => rw [redactValues, ih, List.map_cons]

namespace Value

/-- the values directly inside -/
def children : Value → List Value
  | .list l => l
  | .tuple l => l
  | .dict d => d.map Prod.snd
  | _ => []

/-- the keys of an object -/
def keys : Value → List Str
  | .dict d => d.map Prod.fst
  | _ => []

/-- the value at a place -/
def at? : Value → List ℕ → Option Value
  | v, [] => some v
  | v, n :: path => (v.children[n]?).bind fun w => w.at? path

end Value

/-- every string in the value is clean -/
def CleanValue (v : Value) : Prop := ∀ path s, v.at? path = some (.str s) → Clean u s

theorem children_redact (v : Value) : (redactPiiRecursive u v).children = v.children.map (redactPiiRecursive u) := by
  cases v with
  | list l => exact redactItems_eq u l
  | tuple l => exact redactItems_eq u l
  | dict d =>
    simp only [redactPiiRecursive, Value.children, redactValues_eq, List.map_map]
    rfl
  | none => rfl
  | bool b => rfl
  | int n => rfl
  | float x => rfl
  | str s => rfl

theorem keys_redact (v : Value) : (redactPiiRecursive u v).keys = v.keys := by
  cases v with
  | dict d =>
    simp only [redactPiiRecursive, Value.keys, redactValues_eq, List.map_map]
    rfl
  | list l => rfl
  | tuple l => rfl
  | none => rfl
  | bool b => rfl
  | int n => rfl
  | float x => rfl
  | str s => rfl

/-- **At every place** of a redacted value is what was there, redacted. -/
theorem at_redact (v : Value) (path : List ℕ) : (redactPiiRecursive u v).at? path = (v.at? path).map (redactPiiRecursive u) := by
  induction path generalizing v with
  | nil => rfl
  | cons n path ih =>
    simp only [Value.at?, children_redact, List.getElem?_map]
    cases v.children[n]? with
    | none => rfl
    | some w => exact ih w

/-- every string in a redacted value is clean -/
theorem redact_cleanValue (v : Value) : CleanValue u (redactPiiRecursive u v) := by
  intro path s h
  rw [at_redact] at h
  obtain ⟨w, -, hw⟩ := Option.map_eq_some_iff.1 h
  cases w <;> simp only [redactPiiRecursive, Value.str.injEq, reduceCtorEq] at hw
  rw [← hw]
  exact redactPii_clean u _

theorem CleanValue.child {v w : Value} (h : CleanValue u v) (hw : w ∈ v.children) : CleanValue u w := by
  obtain ⟨n, hn, rfl⟩ := List.getElem_of_mem hw
  intro path s hs
  refine h (n :: path) s ?_
  simp only [Value.at?, List.getElem?_eq_getElem hn, Option.bind_some]
  exact hs

mutual

theorem redact_of_clean : (v : Value) → CleanValue u v → redactPiiRecursive u v = v
  | .str s, h => congrArg Value.str (redactPii_of_clean u (h [] s rfl))
  | .list l, h => congrArg Value.list (redactItems_of_clean l fun _ hw => h.child u hw)
  | .tuple l, h => congrArg Value.tuple (redactItems_of_clean l fun _ hw => h.child u hw)
  | .dict d, h => congrArg Value.dict (redactValues_of_clean d fun _ hw => h.child u (List.mem_map_of_mem hw))
  | .none, _ => rfl
  | .bool _, _ => rfl
  | .int _, _ => rfl
  | .float _, _ => rfl

theorem redactItems_of_clean : (l : List Value) → (∀ w ∈ l, CleanValue u w) → redactItems u l = l
  | [], _ => rfl
  | v :: l, h => congrArg₂ List.cons (redact_of_clean v (h v List.mem_cons_self))
      (redactItems_of_clean l fun w hw => h w (List.mem_cons_of_mem v hw))

theorem redactValues_of_clean : (d : List (Str × Value)) → (∀ kv ∈ d, CleanValue u kv.2) → redactValues u d = d
  | [], _ => rfl
  | (k, v) :: d, h => congrArg₂ List.cons (congrArg (Prod.mk k) (redact_of_clean v (h (k, v) List.mem_cons_self)))
      (redactValues_of_clean d fun kv hkv => h kv (List.mem_cons_of_mem (k, v) hkv))

end

/-- a clean value at a place is there unchanged -/
theorem at_of_clean {v w : Value} {path : List ℕ} (h : v.at? path = some w) (hclean : CleanValue u w) :
    (redactPiiRecursive u v).at? path = some w := by
  rw [at_redact, h, Option.map_some, redact_of_clean u w hclean]

end Clawbolt.SharedData
