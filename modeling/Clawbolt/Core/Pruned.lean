/-
What is left of a JSON value when entries of its lists and objects are left out and its texts are changed.

A place is the way to a value from the top. `Pruned f gone p v w` says that `w` is the value `v` at the place `p`, with its
texts changed by `f`, and without some of the entries at places that `gone` admits; the order stays.

- `Pruned.reaches`: a scalar is in what is left, unless it, or what it is in, was left out;
- `prunedList_of_sublist`, `prunedFields_filterMap`: how passes over lists and objects prune.
-/
import Mathlib.Tactic
import Clawbolt.Core.Json

namespace Json

open Text (Str)

inductive Step where
  | key (k : Str)
  | index (n : ℕ)
deriving DecidableEq

abbrev Path := List Step

/-- the value at a place -/
def at? : Path → Json → Option Json
  | [], v => some v
  | .key k :: p, .obj d => (d.lookup k).bind (at? p)
  | .index n :: p, .arr l => l[n]?.bind (at? p)
  | _ :: _, _ => none

/-- a place below a place -/
theorem at?_append (p q : Path) (v : Json) : at? (p ++ q) v = (at? p v).bind (at? q) := by
  induction p generalizing v with
  | nil => rfl
  | cons s p ih =>
    cases s with
    | key k =>
      cases v with
      | obj d =>
        rw [List.cons_append, at?, at?, Option.bind_assoc]
        exact congrArg _ (funext ih)
      | _ => rfl
    | index n =>
      cases v with
      | arr l =>
        rw [List.cons_append, at?, at?, Option.bind_assoc]
        exact congrArg _ (funext ih)
      | _ => rfl

theorem at?_key {p : Path} {v : Json} {d : Dict Json} (h : at? p v = some (.obj d)) (k : Str) :
    at? (p ++ [.key k]) v = d.lookup k := by
  rw [at?_append, h, Option.bind_some, at?]
  cases d.lookup k <;> rfl

theorem at?_index {p : Path} {v : Json} {l : List Json} (h : at? p v = some (.arr l)) (n : ℕ) :
    at? (p ++ [.index n]) v = l[n]? := by
  rw [at?_append, h, Option.bind_some, at?]
  cases l[n]? <;> rfl

theorem wellFormed_at? {p : Path} {v x : Json} (hwf : v.WellFormed) (h : at? p v = some x) : x.WellFormed := by
  induction p generalizing v with
  | nil => exact Option.some.inj h ▸ hwf
  | cons s p ih =>
    cases s with
    | key k =>
      cases v with
      | obj d =>
        obtain ⟨v', hv', h⟩ := Option.bind_eq_some_iff.1 h
        exact ih (wellFormed_of_lookup hwf hv') h
      | _ => cases h
    | index n =>
      cases v with
      | arr l =>
        obtain ⟨v', hv', h⟩ := Option.bind_eq_some_iff.1 h
        exact ih (wellFormed_of_mem hwf (List.mem_of_getElem? hv')) h
      | _ => cases h

def isScalar : Json → Bool
  | .arr _ => false
  | .obj _ => false
  | _ => true

/-- the induction on a value: scalars, lists and objects -/
theorem induct {P : Json → Prop} (hscalar : ∀ v, isScalar v = true → P v) (harr : ∀ l, (∀ v ∈ l, P v) → P (.arr l))
    (hobj : ∀ d, (∀ kv ∈ d, P kv.2) → P (.obj d)) (v : Json) : P v := by
  refine @Json.rec P (fun l => ∀ v ∈ l, P v) (fun d => ∀ kv ∈ d, P kv.2) (fun kv => P kv.2) (hscalar _ rfl) (fun _ => hscalar _ rfl) (fun _ => hscalar _ rfl) (fun _ => hscalar _ rfl)
    (fun _ => hscalar _ rfl) harr hobj ?_ ?_ ?_ ?_ ?_ v
  · exact fun _ h => absurd h List.not_mem_nil
  · exact fun _ _ hhead htail => List.forall_mem_cons.2 ⟨hhead, htail⟩
  · exact fun _ h => absurd h List.not_mem_nil
  · exact fun _ _ hhead htail => List.forall_mem_cons.2 ⟨hhead, htail⟩
  · exact fun _ _ h => h

/-- the same keys, and indices that are no greater -/
def Lowered : Path → Path → Prop
  | [], [] => True
  | .key k :: p, .key k' :: q => k = k' ∧ Lowered p q
  | .index n :: p, .index m :: q => m ≤ n ∧ Lowered p q
  | _, _ => False

section
variable (f : Str → Str) (gone : Path → Prop)

/-- a scalar with its text changed -/
def leaf : Json → Json
  | .str s => .str (f s)
  | v => v

mutual

def Pruned (p : Path) : Json → Json → Prop
  | .arr xs, w => ∃ ys, w = .arr ys ∧ PrunedList p 0 xs ys
  | .obj d, w => ∃ e, w = .obj e ∧ PrunedFields p d e
  | v, w => w = leaf f v

/-- the entries from the `n`th on -/
def PrunedList (p : Path) (n : ℕ) : List Json → List Json → Prop
  | [], ys => ys = []
  | x :: xs, ys =>
    (∃ y ys', ys = y :: ys' ∧ Pruned (p ++ [.index n]) x y ∧ PrunedList p (n + 1) xs ys') ∨
      gone (p ++ [.index n]) ∧ PrunedList p (n + 1) xs ys

def PrunedFields (p : Path) : List (Str × Json) → List (Str × Json) → Prop
  | [], e => e = []
  | (k, v) :: d, e =>
    (∃ w e', e = (k, w) :: e' ∧ Pruned (p ++ [.key k]) v w ∧ PrunedFields p d e') ∨
      gone (p ++ [.key k]) ∧ PrunedFields p d e

end

variable {f gone}

theorem pruned_scalar {p : Path} {v w : Json} (hv : isScalar v = true) : Pruned f gone p v w ↔ w = leaf f v := by
  cases v with
  | arr l => exact absurd hv Bool.false_ne_true
  | obj d => exact absurd hv Bool.false_ne_true
  | _ => rfl

/-! ## Scalars -/

/-- a place at or above `q`, below `p`, is one that `gone` admits -/
def GoneOn (gone : Path → Prop) (p q : Path) : Prop := ∃ a b, q = a ++ b ∧ a ≠ [] ∧ gone (p ++ a)

theorem goneOn_cons {p q : Path} {s : Step} (h : GoneOn gone (p ++ [s]) q) : GoneOn gone p (s :: q) := by
  obtain ⟨a, b, rfl, -, ho⟩ := h
  exact ⟨s :: a, b, rfl, List.cons_ne_nil _ _, by rwa [List.append_assoc] at ho⟩

theorem goneOn_head {p q : Path} {s : Step} (h : gone (p ++ [s])) : GoneOn gone p (s :: q) :=
  ⟨[s], q, rfl, List.cons_ne_nil _ _, h⟩

/-- an entry of a list is left out, or it is left at a place that is no later -/
theorem PrunedList.entry {p : Path} {n : ℕ} {xs ys : List Json} (h : PrunedList f gone p n xs ys) {i : ℕ} {x : Json}
    (hx : xs[i]? = some x) :
    gone (p ++ [.index (n + i)]) ∨ ∃ j y, j ≤ i ∧ ys[j]? = some y ∧ Pruned f gone (p ++ [.index (n + i)]) x y := by
  induction xs generalizing n ys i with
  | nil => exact absurd hx (by simp)
  | cons x' xs ih =>
    rw [PrunedList] at h
    cases i with
    | zero =>
      obtain rfl := Option.some.inj hx
      obtain ⟨y, ys', rfl, hy, -⟩ | ⟨ho, -⟩ := h
      · exact .inr ⟨0, y, le_rfl, rfl, hy⟩
      · exact .inl ho
    | succ i =>
      rw [List.getElem?_cons_succ] at hx
      have hshift : n + 1 + i = n + (i + 1) := by omega
      obtain ⟨y, ys', rfl, -, hrest⟩ | ⟨-, hrest⟩ := h
      · obtain ho | ⟨j, y', hj, hy', hpruned⟩ := ih hrest hx
        · exact .inl (hshift ▸ ho)
        · exact .inr ⟨j + 1, y', by omega, by rwa [List.getElem?_cons_succ], hshift ▸ hpruned⟩
      · obtain ho | ⟨j, y', hj, hy', hpruned⟩ := ih hrest hx
        · exact .inl (hshift ▸ ho)
        · exact .inr ⟨j, y', by omega, hy', hshift ▸ hpruned⟩

/-- so is the first entry of an object under a key -/
theorem PrunedFields.entry {p : Path} {d e : List (Str × Json)} (h : PrunedFields f gone p d e) {k : Str} {v : Json}
    (hv : d.lookup k = some v) : gone (p ++ [.key k]) ∨ ∃ w, e.lookup k = some w ∧ Pruned f gone (p ++ [.key k]) v w := by
  induction d generalizing e with
  | nil => exact absurd hv (by simp)
  | cons kv d ih =>
    obtain ⟨k', v'⟩ := kv
    rw [PrunedFields] at h
    by_cases hk : k = k'
    · subst hk
      rw [Dict.lookup_cons_self] at hv
      obtain rfl := Option.some.inj hv
      obtain ⟨w, e', rfl, hw, -⟩ | ⟨ho, -⟩ := h
      · exact .inr ⟨w, Dict.lookup_cons_self _ _ _, hw⟩
      · exact .inl ho
    · rw [Dict.lookup_cons_ne hk] at hv
      obtain ⟨w, e', rfl, -, hrest⟩ | ⟨-, hrest⟩ := h
      · rw [Dict.lookup_cons_ne hk]
        exact ih hrest hv
      · exact ih hrest hv

/-- **Scalars.** A scalar is in what is left, unless it, or what it is in, was left out. -/
theorem Pruned.reaches {p q : Path} {v w x : Json} (h : Pruned f gone p v w) (hx : at? q v = some x) (hscalar : isScalar x = true) :
    GoneOn gone p q ∨ ∃ q', Lowered q q' ∧ at? q' w = some (leaf f x) := by
  induction q generalizing p v w with
  | nil =>
    obtain rfl := Option.some.inj hx
    rw [pruned_scalar hscalar] at h
    exact .inr ⟨[], trivial, by rw [h]; rfl⟩
  | cons s q ih =>
    cases s with
    | key k =>
      cases v with
      | obj d =>
        obtain ⟨v', hv', hx⟩ := Option.bind_eq_some_iff.1 hx
        obtain ⟨e, rfl, hfields⟩ := h
        obtain ho | ⟨w', hw', hpruned⟩ := hfields.entry hv'
        · exact .inl (goneOn_head ho)
        · obtain ho | ⟨q', hlow, hat⟩ := ih hpruned hx
          · exact .inl (goneOn_cons ho)
          · exact .inr ⟨.key k :: q', ⟨rfl, hlow⟩, by rw [at?, hw', Option.bind_some, hat]⟩
      | _ => exact absurd hx (by simp [at?])
    | index n =>
      cases v with
      | arr xs =>
        obtain ⟨v', hv', hx⟩ := Option.bind_eq_some_iff.1 hx
        obtain ⟨ys, rfl, hlist⟩ := h
        have hentry := hlist.entry hv'
        rw [Nat.zero_add] at hentry
        obtain ho | ⟨j, y, hj, hy, hpruned⟩ := hentry
        · exact .inl (goneOn_head ho)
        · obtain ho | ⟨q', hlow, hat⟩ := ih hpruned hx
          · exact .inl (goneOn_cons ho)
          · exact .inr ⟨.index j :: q', ⟨hj, hlow⟩, by rw [at?, hy, Option.bind_some, hat]⟩
      | _ => exact absurd hx (by simp [at?])

/-! ## Passes -/

/-- a pass that keeps some entries of a list, in their order, each of them pruned -/
theorem prunedList_of_sublist {p : Path} {g : Json → Json} {n : ℕ} {xs : List Json} {kept : List (Json × ℕ)}
    (hsub : kept.Sublist (xs.zipIdx n)) (hgone : ∀ e ∈ xs.zipIdx n, e ∉ kept → gone (p ++ [.index e.2]))
    (hkeep : ∀ e ∈ kept, Pruned f gone (p ++ [.index e.2]) e.1 (g e.1)) : PrunedList f gone p n xs (kept.map fun e => g e.1) := by
  induction xs generalizing n kept with
  | nil =>
    obtain rfl := List.sublist_nil.1 hsub
    rfl
  | cons x xs ih =>
    rw [List.zipIdx_cons] at hsub hgone
    rw [PrunedList]
    -- the indices of the rest are greater
    have hlater : (x, n) ∉ xs.zipIdx (n + 1) := by
      intro hmem
      have := (List.mem_zipIdx hmem).1
      omega
    cases hsub with
    | cons _ hsub =>
      refine .inr ⟨hgone (x, n) List.mem_cons_self fun hmem => hlater (hsub.subset hmem), ?_⟩
      exact ih hsub (fun e he => hgone e (List.mem_cons_of_mem _ he)) hkeep
    | cons_cons _ hsub =>
      rename_i kept
      refine .inl ⟨_, _, rfl, hkeep (x, n) List.mem_cons_self, ?_⟩
      refine ih hsub (fun e he hnot => hgone e (List.mem_cons_of_mem _ he) ?_) fun e he => hkeep e (List.mem_cons_of_mem _ he)
      rintro hmem
      obtain rfl | hmem := List.mem_cons.1 hmem
      · exact hlater he
      · exact hnot hmem

theorem PrunedFields.keys {p : Path} {d e : List (Str × Json)} (h : PrunedFields f gone p d e) :
    (e.map Prod.fst).Sublist (d.map Prod.fst) := by
  induction d generalizing e with
  | nil =>
    obtain rfl := h
    exact List.Sublist.slnil
  | cons kv d ih =>
    obtain ⟨k, v⟩ := kv
    rw [PrunedFields] at h
    obtain ⟨w, e', rfl, -, hrest⟩ | ⟨-, hrest⟩ := h
    · exact (ih hrest).cons_cons k
    · exact (ih hrest).cons k

/-- leaving out one key more -/
theorem PrunedFields.erase {p : Path} {d e : List (Str × Json)} (h : PrunedFields f gone p d e) {k : Str}
    (hk : gone (p ++ [.key k])) : PrunedFields f gone p d (Dict.erase k e) := by
  induction d generalizing e with
  | nil =>
    obtain rfl := h
    rfl
  | cons kv d ih =>
    obtain ⟨k', v⟩ := kv
    rw [PrunedFields] at h ⊢
    obtain ⟨w, e', rfl, hw, hrest⟩ | ⟨ho, hrest⟩ := h
    · by_cases hne : k' = k
      · have hgone : Dict.erase k ((k', w) :: e') = Dict.erase k e' := by simp [Dict.erase, hne]
        rw [hgone]
        exact .inr ⟨hne ▸ hk, ih hrest⟩
      · have hkept : Dict.erase k ((k', w) :: e') = (k', w) :: Dict.erase k e' := by simp [Dict.erase, hne]
        exact .inl ⟨w, _, hkept, hw, ih hrest⟩
    · exact .inr ⟨ho, ih hrest⟩

/-- another value for a key that is left -/
theorem PrunedFields.set {p : Path} {d e : List (Str × Json)} (h : PrunedFields f gone p d e) (hnodup : (d.map Prod.fst).Nodup)
    {k : Str} {v w : Json} (hv : d.lookup k = some v) (hw : Pruned f gone (p ++ [.key k]) v w) (hleft : k ∈ e.map Prod.fst) :
    PrunedFields f gone p d (Dict.set k w e) := by
  induction d generalizing e with
  | nil => exact absurd hv (by simp)
  | cons kv d ih =>
    obtain ⟨k', v'⟩ := kv
    obtain ⟨hnot, hnodup⟩ := List.nodup_cons.1 (List.map_cons ▸ hnodup)
    rw [PrunedFields] at h ⊢
    by_cases hk : k = k'
    · subst hk
      rw [Dict.lookup_cons_self] at hv
      obtain rfl := Option.some.inj hv
      obtain ⟨w', e', rfl, -, hrest⟩ | ⟨-, hrest⟩ := h
      · exact .inl ⟨w, e', by rw [Dict.set, if_pos rfl], hw, hrest⟩
      · exact absurd (hrest.keys.subset hleft) hnot
    · rw [Dict.lookup_cons_ne hk] at hv
      obtain ⟨w', e', rfl, hw', hrest⟩ | ⟨ho, hrest⟩ := h
      · refine .inl ⟨w', Dict.set k w e', by rw [Dict.set, if_neg (Ne.symm hk)], hw', ih hrest hnodup hv ?_⟩
        exact (List.mem_cons.1 hleft).resolve_left hk
      · exact .inr ⟨ho, ih hrest hnodup hv hleft⟩

mutual

/-- objects of what is left have distinct keys, too -/
theorem Pruned.wellFormed {p : Path} : (v w : Json) → Pruned f gone p v w → v.WellFormed → w.WellFormed
  | .arr xs, w, h, hwf => by
    obtain ⟨ys, rfl, hlist⟩ := h
    rw [WellFormed] at hwf ⊢
    exact PrunedList.wellFormed xs ys hlist hwf
  | .obj d, w, h, hwf => by
    obtain ⟨e, rfl, hfields⟩ := h
    rw [WellFormed] at hwf ⊢
    exact ⟨hwf.1.sublist hfields.keys, PrunedFields.wellFormed d e hfields hwf.2⟩
  | .null, w, h, _ => by rw [(pruned_scalar rfl).1 h, leaf, WellFormed] <;> simp
  | .bool b, w, h, _ => by rw [(pruned_scalar rfl).1 h, leaf, WellFormed] <;> simp
  | .int n, w, h, _ => by rw [(pruned_scalar rfl).1 h, leaf, WellFormed] <;> simp
  | .float x, w, h, _ => by rw [(pruned_scalar rfl).1 h, leaf, WellFormed] <;> simp
  | .str s, w, h, _ => by rw [(pruned_scalar rfl).1 h, leaf, WellFormed] <;> simp

theorem PrunedList.wellFormed {p : Path} {n : ℕ} : (xs ys : List Json) → PrunedList f gone p n xs ys → WellFormedList xs →
    WellFormedList ys
  | [], ys, h, _ => by
    rw [PrunedList] at h
    rw [h, WellFormedList]
    trivial
  | x :: xs, ys, h, hwf => by
    rw [WellFormedList] at hwf
    rw [PrunedList] at h
    obtain ⟨y, ys', rfl, hy, hrest⟩ | ⟨-, hrest⟩ := h
    · rw [WellFormedList]
      exact ⟨Pruned.wellFormed x y hy hwf.1, PrunedList.wellFormed xs ys' hrest hwf.2⟩
    · exact PrunedList.wellFormed xs ys hrest hwf.2

theorem PrunedFields.wellFormed {p : Path} : (d e : List (Str × Json)) → PrunedFields f gone p d e → WellFormedDict d →
    WellFormedDict e
  | [], e, h, _ => by
    rw [PrunedFields] at h
    rw [h, WellFormedDict]
    trivial
  | (k, v) :: d, e, h, hwf => by
    rw [WellFormedDict] at hwf
    rw [PrunedFields] at h
    obtain ⟨w, e', rfl, hw, hrest⟩ | ⟨-, hrest⟩ := h
    · rw [WellFormedDict]
      exact ⟨Pruned.wellFormed v w hw hwf.1, PrunedFields.wellFormed d e' hrest hwf.2⟩
    · exact PrunedFields.wellFormed d e hrest hwf.2

end

/-- a pass over the entries of an object, one by one -/
theorem prunedFields_filterMap {p : Path} {g : Str × Json → Option (Str × Json)} {d : List (Str × Json)}
    (h : ∀ kv ∈ d, match g kv with
      | some kw => kw.1 = kv.1 ∧ Pruned f gone (p ++ [.key kv.1]) kv.2 kw.2
      | none => gone (p ++ [.key kv.1])) : PrunedFields f gone p d (d.filterMap g) := by
  induction d with
  | nil => rfl
  | cons kv d ih =>
    obtain ⟨k, v⟩ := kv
    have hrest := ih fun kv hkv => h kv (List.mem_cons_of_mem _ hkv)
    have hhead := h (k, v) List.mem_cons_self
    rw [PrunedFields, List.filterMap_cons]
    cases hg : g (k, v) with
    | none =>
      rw [hg] at hhead
      exact .inr ⟨hhead, hrest⟩
    | some kw =>
      obtain ⟨k', w⟩ := kw
      rw [hg] at hhead
      obtain ⟨rfl, hw⟩ := hhead
      exact .inl ⟨w, _, rfl, hw, hrest⟩

end

end Json
