/-
A `dict` as a whole: sums over its values, its size, and what holds of all of its values, under a set, a removal and a
split in two.

- `total_set`: the sum with the new value, and with the one that it replaces;
- `total_erase`, `total_take_drop`: a removal, and a dict in two parts;
- `forall_set`: what holds of all values;
- `lookup_take_drop`: a key of a dict in two parts.
-/
import Mathlib.Tactic
import Clawbolt.Core.Json

open Text (Str)

namespace Dict

variable {α : Type} {d : Dict α} {k : Str} {v : α}

def total (f : α → ℕ) (d : Dict α) : ℕ := (d.map fun kv => f kv.2).sum

@[simp] theorem total_nil (f : α → ℕ) : total f [] = 0 := rfl

@[simp] theorem total_cons (f : α → ℕ) (kv : Str × α) (d : Dict α) : total f (kv :: d) = f kv.2 + total f d := by
  simp [total]

theorem total_append (f : α → ℕ) (d e : Dict α) : total f (d ++ e) = total f d + total f e := by
  simp [total]

theorem total_take_drop (f : α → ℕ) (n : ℕ) (d : Dict α) : total f (d.take n) + total f (d.drop n) = total f d := by
  rw [← total_append, List.take_append_drop]

/-- the value at `k` counts once with the old value, and once with the new -/
theorem total_set (f : α → ℕ) (d : Dict α) (k : Str) (v : α) :
    total f (set k v d) + ((d.lookup k).map f).getD 0 = total f d + f v := by
  induction d with
  | nil => simp [set]
  | cons kv d ih =>
    obtain ⟨a, b⟩ := kv
    by_cases ha : a = k
    · subst ha
      simp [set]
      omega
    · rw [set, if_neg ha, lookup_cons_ne (Ne.symm ha), total_cons, total_cons]
      omega

theorem total_set_new (f : α → ℕ) (h : d.lookup k = none) (v : α) : total f (set k v d) = total f d + f v := by
  simpa [h] using total_set f d k v

theorem total_set_old (f : α → ℕ) (h : d.lookup k = some v) (w : α) : total f (set k w d) + f v = total f d + f w := by
  simpa [h] using total_set f d k w

theorem total_erase (f : α → ℕ) (hd : (d.map Prod.fst).Nodup) (h : d.lookup k = some v) :
    total f (erase k d) + f v = total f d := by
  induction d with
  | nil => simp at h
  | cons kv d ih =>
    obtain ⟨a, b⟩ := kv
    obtain ⟨hnot, hd⟩ := List.nodup_cons.1 hd
    by_cases ha : k = a
    · subst ha
      obtain rfl : b = v := by simpa [lookup_cons_self] using h
      have hnone : d.lookup k = none := by
        rw [List.lookup_eq_none_iff]
        intro kv hkv
        refine bne_iff_ne.2 fun heq => hnot ?_
        exact List.mem_map.2 ⟨kv, hkv, heq.symm⟩
      have hself := erase_self hnone
      rw [erase] at hself ⊢
      rw [List.filter_cons_of_neg (by simp), hself, total_cons, add_comm]
    · rw [lookup_cons_ne ha] at h
      have hrest := ih hd h
      rw [erase] at hrest ⊢
      rw [List.filter_cons_of_pos (by simpa using Ne.symm ha), total_cons, total_cons]
      omega

theorem forall_set {P : α → Prop} (h : ∀ kv ∈ d, P kv.2) (hv : P v) : ∀ kv ∈ set k v d, P kv.2 := by
  induction d with
  | nil => simpa [set] using hv
  | cons kv d ih =>
    obtain ⟨a, b⟩ := kv
    obtain ⟨hb, hd⟩ := List.forall_mem_cons.1 h
    by_cases ha : a = k
    · rw [set, if_pos ha]
      exact List.forall_mem_cons.2 ⟨hv, hd⟩
    · rw [set, if_neg ha]
      exact List.forall_mem_cons.2 ⟨hb, ih hd⟩

theorem forall_erase {P : Str × α → Prop} (h : ∀ kv ∈ d, P kv) (k : Str) : ∀ kv ∈ erase k d, P kv :=
  fun kv hkv => h kv (List.mem_filter.1 hkv).1

theorem nodup_erase (h : (d.map Prod.fst).Nodup) (k : Str) : ((erase k d).map Prod.fst).Nodup :=
  h.sublist (List.filter_sublist.map _)

theorem length_set (d : Dict α) (k : Str) (v : α) : (set k v d).length = d.length + if d.lookup k = none then 1 else 0 := by
  induction d with
  | nil => simp [set]
  | cons kv d ih =>
    obtain ⟨a, b⟩ := kv
    by_cases ha : a = k
    · subst ha
      simp [set]
    · rw [set, if_neg ha, lookup_cons_ne (Ne.symm ha), List.length_cons, List.length_cons, ih]
      omega

theorem lookup_take_drop (d : Dict α) (n : ℕ) (k : Str) :
    (d.take n).lookup k = none ∧ (d.drop n).lookup k = none ↔ d.lookup k = none := by
  conv_rhs => rw [← List.take_append_drop n d]
  rw [List.lookup_append, Option.or_eq_none_iff]

end Dict
