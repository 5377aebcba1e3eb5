/-
JSON values as Python holds them after `json.loads`, and Python's `dict`. A finite float is the rational it is; an
object is an association list in insertion order, read by `List.lookup`.

- `Dict.set`, `Dict.update`, `Dict.erase`: `d[k] = v`, `{**d, **e}` and `d.pop(k, None)`, with what a lookup then finds
  (`lookup_set`, `lookup_update`, `lookup_erase`); setting keeps the keys distinct (`nodup_update`);
- `Json.eqv`: Python's `==`, for which the order of keys does not matter and `1`, `1.0` and `True` are equal; every
  value whose objects have distinct keys equals itself (`eqv_refl`).
-/
import Mathlib.Tactic
import Clawbolt.Core.Text

open Text (Str)

/-- a Python `dict` with string keys -/
abbrev Dict (α : Type) := List (Str × α)

namespace Dict

variable {α : Type}

/-- `k in d` -/
def has (k : Str) (d : Dict α) : Bool := (d.lookup k).isSome

theorem has_eq_false {d : Dict α} {k : Str} : has k d = false ↔ d.lookup k = none := by
  simp only [has, Option.isSome_eq_false_iff, Option.isNone_iff_eq_none]

/-- `d[k] = v`: a key that is there keeps its place -/
def set (k : Str) (v : α) : Dict α → Dict α
  | [] => [(k, v)]
  | (k', v') :: d => if k' = k then (k, v) :: d else (k', v') :: set k v d

/-- `{**d, **e}` -/
def update (d e : Dict α) : Dict α := e.foldl (fun d kv => set kv.1 kv.2 d) d

/-- `d.pop(k, None)` -/
def erase (k : Str) (d : Dict α) : Dict α := d.filter fun kv => kv.1 ≠ k

theorem lookup_cons_self (k : Str) (v : α) (d : Dict α) : List.lookup k ((k, v) :: d) = some v :=
  List.lookup_cons_self

theorem lookup_cons_ne {k k' : Str} (h : k ≠ k') (v : α) (d : Dict α) : List.lookup k ((k', v) :: d) = d.lookup k := by
  rw [List.lookup_cons, beq_eq_false_iff_ne.2 h]

theorem lookup_set (d : Dict α) (k k' : Str) (v : α) :
    (set k v d).lookup k' = if k' = k then some v else d.lookup k' := by
  induction d with
  | nil =>
    split_ifs with h
    · subst h; exact lookup_cons_self _ _ _
    · exact lookup_cons_ne h _ _
  | cons kv d ih =>
    obtain ⟨a, b⟩ := kv
    simp only [set]
    split_ifs with ha h h
    · subst h; exact lookup_cons_self _ _ _
    · rw [lookup_cons_ne h, lookup_cons_ne (ha ▸ h)]
    · subst h; rw [lookup_cons_ne (Ne.symm ha), ih, if_pos rfl]
    · by_cases hk : k' = a
      · subst hk; rw [lookup_cons_self, lookup_cons_self]
      · rw [lookup_cons_ne hk, lookup_cons_ne hk, ih, if_neg h]

/-- the last value of a key wins -/
theorem lookup_update (d e : Dict α) (k : Str) :
    (update d e).lookup k = (e.reverse.lookup k).or (d.lookup k) := by
  induction e generalizing d with
  | nil => simp [update]
  | cons kv e ih =>
    obtain ⟨a, b⟩ := kv
    have h : update d ((a, b) :: e) = update (set a b d) e := rfl
    rw [h, ih, lookup_set, List.reverse_cons, List.lookup_append, Option.or_assoc]
    congr 1
    split_ifs with hk
    · subst hk; rw [lookup_cons_self]; rfl
    · rw [lookup_cons_ne hk]; rfl

theorem mem_of_lookup {d : Dict α} {k : Str} {v : α} (h : d.lookup k = some v) : (k, v) ∈ d := by
  induction d with
  | nil => simp at h
  | cons kv d ih =>
    obtain ⟨a, b⟩ := kv
    by_cases he : k = a
    · subst he
      rw [lookup_cons_self] at h
      cases h; exact List.mem_cons_self
    · rw [lookup_cons_ne he] at h
      exact List.mem_cons_of_mem _ (ih h)

/-- setting a key to the value that it has -/
theorem set_self {d : Dict α} {k : Str} {v : α} (h : d.lookup k = some v) : set k v d = d := by
  induction d with
  | nil => simp at h
  | cons kv d ih =>
    obtain ⟨a, b⟩ := kv
    by_cases ha : k = a
    · subst ha
      rw [lookup_cons_self] at h
      cases h
      simp [set]
    · rw [lookup_cons_ne ha] at h
      simp [set, Ne.symm ha, ih h]

theorem update_self {d e : Dict α} (h : ∀ kv ∈ e, d.lookup kv.1 = some kv.2) : update d e = d := by
  induction e with
  | nil => rfl
  | cons kv e ih =>
    have hcons : update d (kv :: e) = update (set kv.1 kv.2 d) e := rfl
    rw [hcons, set_self (h kv List.mem_cons_self)]
    exact ih fun x hx => h x (List.mem_cons_of_mem _ hx)

theorem erase_self {d : Dict α} {k : Str} (h : d.lookup k = none) : erase k d = d := by
  rw [List.lookup_eq_none_iff] at h
  refine List.filter_eq_self.2 fun kv hkv => decide_eq_true fun he => ?_
  exact bne_iff_ne.1 (h kv hkv) he.symm

theorem length_erase_lt {d : Dict α} {k : Str} {v : α} (h : d.lookup k = some v) : (erase k d).length < d.length := by
  obtain ⟨x, hx, hk⟩ : ∃ x ∈ d, x.1 = k := ⟨(k, v), mem_of_lookup h, rfl⟩
  exact List.length_filter_lt_length_iff_exists.2 ⟨x, hx, by simp [hk]⟩

theorem keys_set (d : Dict α) (k : Str) (v : α) :
    (set k v d).map Prod.fst = if k ∈ d.map Prod.fst then d.map Prod.fst else d.map Prod.fst ++ [k] := by
  induction d with
  | nil => rfl
  | cons kv d ih =>
    obtain ⟨a, b⟩ := kv
    simp only [set]
    by_cases ha : a = k
    · subst ha; simp
    · rw [if_neg ha, List.map_cons, ih]
      by_cases hk : k ∈ d.map Prod.fst
      · rw [if_pos hk, if_pos (by simp [hk])]; rfl
      · rw [if_neg hk, if_neg (by rw [List.map_cons, List.mem_cons, not_or]; exact ⟨Ne.symm ha, hk⟩)]; rfl

theorem nodup_set {d : Dict α} (h : (d.map Prod.fst).Nodup) (k : Str) (v : α) : ((set k v d).map Prod.fst).Nodup := by
  rw [keys_set]
  split_ifs with hk
  · exact h
  · exact List.nodup_append.2 ⟨h, List.nodup_singleton _, fun x hx y hy => by
      rw [List.mem_singleton.1 hy]; exact fun he => hk (he ▸ hx)⟩

theorem nodup_update {d : Dict α} (h : (d.map Prod.fst).Nodup) (e : Dict α) : ((update d e).map Prod.fst).Nodup := by
  induction e generalizing d with
  | nil => exact h
  | cons kv e ih => exact ih (nodup_set h kv.1 kv.2)

theorem lookup_erase (d : Dict α) (k k' : Str) : (erase k d).lookup k' = if k' = k then none else d.lookup k' := by
  induction d with
  | nil => simp [erase]
  | cons kv d ih =>
    obtain ⟨a, b⟩ := kv
    have hcons : erase k ((a, b) :: d) = if a = k then erase k d else (a, b) :: erase k d := by
      by_cases ha : a = k <;> simp [erase, ha]
    rw [hcons]
    by_cases hk : k' = a
    · subst hk
      split_ifs with ha
      · rw [ih, if_pos ha]
      · rw [lookup_cons_self, lookup_cons_self]
    · rw [lookup_cons_ne hk, ← ih]
      split_ifs with ha
      · rfl
      · exact lookup_cons_ne hk _ _

/-- with distinct keys, every entry is the one a lookup finds -/
theorem lookup_of_mem {d : Dict α} (h : (d.map Prod.fst).Nodup) {k : Str} {v : α} (hm : (k, v) ∈ d) :
    d.lookup k = some v := by
  induction d with
  | nil => simp at hm
  | cons kv d ih =>
    obtain ⟨a, b⟩ := kv
    simp only [List.map_cons, List.nodup_cons] at h
    rcases List.mem_cons.1 hm with heq | hm
    · cases heq; exact lookup_cons_self _ _ _
    · have hne : k ≠ a := fun he => h.1 (he ▸ List.mem_map_of_mem (f := Prod.fst) hm)
      rw [lookup_cons_ne hne, ih h.2 hm]

/-- with distinct keys, the last value of a key is the first -/
theorem lookup_reverse {d : Dict α} (h : (d.map Prod.fst).Nodup) (k : Str) : d.reverse.lookup k = d.lookup k := by
  cases hl : d.reverse.lookup k with
  | some v => exact (lookup_of_mem h (List.mem_reverse.1 (mem_of_lookup hl))).symm
  | none =>
    symm
    rw [List.lookup_eq_none_iff] at hl ⊢
    exact fun p hp => hl p (List.mem_reverse.2 hp)

/-- a dict filled from a list: the last item with the key -/
theorem lookup_foldl_set {β : Type} (f : β → Str) (g : β → α) (l : List β) (d : Dict α) (k : Str) :
    (l.foldl (fun d x => set (f x) (g x) d) d).lookup k =
      ((l.reverse.find? fun x => f x = k).map g).or (d.lookup k) := by
  induction l using List.reverseRecOn with
  | nil => simp
  | append_singleton l x ih =>
    rw [List.foldl_append, List.foldl_cons, List.foldl_nil, lookup_set, List.reverse_append, List.reverse_singleton,
      List.singleton_append, List.find?_cons]
    by_cases h : f x = k
    · simp [h]
    · simp [h, Ne.symm h, ih]

end Dict

inductive Json where
  | null
  | bool (b : Bool)
  | int (n : ℤ)
  | float (x : ℚ)
  | str (s : Str)
  | arr (l : List Json)
  | obj (d : List (Str × Json))
deriving Repr

namespace Json

mutual

def same : Json → Json → Bool
  | .null, .null => true
  | .bool a, .bool b => a == b
  | .int a, .int b => a == b
  | .float a, .float b => a == b
  | .str a, .str b => a == b
  | .arr a, .arr b => sameList a b
  | .obj a, .obj b => sameDict a b
  | _, _ => false

def sameList : List Json → List Json → Bool
  | [], [] => true
  | a :: l, b :: m => same a b && sameList l m
  | _, _ => false

def sameDict : List (Str × Json) → List (Str × Json) → Bool
  | [], [] => true
  | (k, a) :: l, (j, b) :: m => k == j && same a b && sameDict l m
  | _, _ => false

end

mutual

theorem same_iff : (a b : Json) → (same a b = true ↔ a = b)
  | .null, b => by cases b <;> simp [same]
  | .bool a, b => by cases b <;> simp [same]
  | .int a, b => by cases b <;> simp [same]
  | .float a, b => by cases b <;> simp [same]
  | .str a, b => by cases b <;> simp [same]
  | .arr a, b => by cases b <;> simp [same, sameList_iff a]
  | .obj a, b => by cases b <;> simp [same, sameDict_iff a]

theorem sameList_iff : (a b : List Json) → (sameList a b = true ↔ a = b)
  | [], b => by cases b <;> simp [sameList]
  | a :: l, b => by cases b <;> simp [sameList, same_iff a, sameList_iff l]

theorem sameDict_iff : (a b : List (Str × Json)) → (sameDict a b = true ↔ a = b)
  | [], b => by cases b <;> simp [sameDict]
  | (k, a) :: l, b => by cases b <;> simp [sameDict, same_iff a, sameDict_iff l, Prod.ext_iff]

end

instance : DecidableEq Json := fun a b => decidable_of_iff _ (same_iff a b)

/-- the value of a number; `True` and `False` are numbers -/
def number : Json → Option ℚ
  | .bool b => some (if b then 1 else 0)
  | .int n => some n
  | .float x => some x
  | _ => none

mutual

/-- Python's `==` -/
def eqv : Json → Json → Bool
  | .null, .null => true
  | .bool a, b => number b == some (if a then 1 else 0)
  | .int a, b => number b == some (a : ℚ)
  | .float a, b => number b == some a
  | .str a, .str b => a == b
  | .arr a, .arr b => eqvList a b
  | .obj a, .obj b => a.length == b.length && eqvDict a b
  | _, _ => false

def eqvList : List Json → List Json → Bool
  | [], [] => true
  | a :: l, b :: m => eqv a b && eqvList l m
  | _, _ => false

/-- every entry of the first has an equal value in the second -/
def eqvDict : List (Str × Json) → List (Str × Json) → Bool
  | [], _ => true
  | (k, a) :: l, b =>
    (match b.lookup k with
      | some v => eqv a v
      | none => false) && eqvDict l b

end

mutual

/-- every object in the value has distinct keys -/
def WellFormed : Json → Prop
  | .arr l => WellFormedList l
  | .obj d => (d.map Prod.fst).Nodup ∧ WellFormedDict d
  | _ => True

def WellFormedList : List Json → Prop
  | [] => True
  | a :: l => WellFormed a ∧ WellFormedList l

def WellFormedDict : List (Str × Json) → Prop
  | [] => True
  | (_, a) :: l => WellFormed a ∧ WellFormedDict l

end

theorem wellFormedList_iff (l : List Json) : WellFormedList l ↔ ∀ a ∈ l, WellFormed a := by
  induction l with
  | nil => simp [WellFormedList]
  | cons a l ih => simp [WellFormedList, ih]

theorem wellFormedDict_iff (d : List (Str × Json)) : WellFormedDict d ↔ ∀ kv ∈ d, WellFormed kv.2 := by
  induction d with
  | nil => simp [WellFormedDict]
  | cons kv d ih => obtain ⟨k, a⟩ := kv; simp [WellFormedDict, ih]

theorem nodup_of_wellFormed {d : Dict Json} (h : WellFormed (.obj d)) : (d.map Prod.fst).Nodup := by
  rw [WellFormed] at h
  exact h.1

theorem wellFormed_of_mem {l : List Json} (h : WellFormed (.arr l)) {a : Json} (ha : a ∈ l) : WellFormed a := by
  rw [WellFormed] at h
  exact (wellFormedList_iff l).1 h a ha

theorem wellFormed_of_lookup {d : Dict Json} (h : WellFormed (.obj d)) {k : Str} {v : Json} (hv : d.lookup k = some v) :
    WellFormed v := by
  rw [WellFormed] at h
  exact (wellFormedDict_iff d).1 h.2 _ (Dict.mem_of_lookup hv)

mutual

theorem eqv_refl : (a : Json) → WellFormed a → eqv a a = true
  | .null, _ => by simp [eqv]
  | .bool a, _ => by simp [eqv, number]
  | .int a, _ => by simp [eqv, number]
  | .float a, _ => by simp [eqv, number]
  | .str a, _ => by simp [eqv]
  | .arr l, h => by
    simp only [WellFormed] at h
    simp [eqv, eqvList_refl l h]
  | .obj d, h => by
    simp only [WellFormed] at h
    simp [eqv, eqvDict_refl d d h.2 fun k v hm => Dict.lookup_of_mem h.1 hm]

theorem eqvList_refl : (l : List Json) → WellFormedList l → eqvList l l = true
  | [], _ => by simp [eqvList]
  | a :: l, h => by
    simp only [WellFormedList] at h
    simp [eqvList, eqv_refl a h.1, eqvList_refl l h.2]

theorem eqvDict_refl : (l d : List (Str × Json)) → WellFormedDict l →
    (∀ k v, (k, v) ∈ l → d.lookup k = some v) → eqvDict l d = true
  | [], _, _, _ => by simp [eqvDict]
  | (k, a) :: l, d, h, hd => by
    simp only [WellFormedDict] at h
    simp [eqvDict, hd k a List.mem_cons_self, eqv_refl a h.1,
      eqvDict_refl l d h.2 fun k v hm => hd k v (List.mem_cons_of_mem _ hm)]

end

theorem eqvList_iff (l m : List Json) : eqvList l m = true ↔ List.Forall₂ (fun a b => eqv a b = true) l m := by
  induction l generalizing m with
  | nil => cases m <;> simp [eqvList]
  | cons a l ih => cases m <;> simp [eqvList, ih]

/-- equal objects have equal values -/
theorem eqvDict_lookup {l d : List (Str × Json)} (h : eqvDict l d = true) {k : Str} {v : Json} (hm : (k, v) ∈ l) :
    ∃ w, d.lookup k = some w ∧ eqv v w = true := by
  induction l with
  | nil => simp at hm
  | cons kv l ih =>
    obtain ⟨a, b⟩ := kv
    rw [eqvDict, Bool.and_eq_true] at h
    rcases List.mem_cons.1 hm with heq | hm
    · cases heq
      cases hl : d.lookup k with
      | none => simp [hl] at h
      | some w => exact ⟨w, rfl, by simpa [hl] using h.1⟩
    · exact ih h.2 hm

end Json
