/-
The first name of a numbered family that is not taken: a loop that counts up until it finds one. Numbers are written
with leading zeros, as `f"{n:03d}"` writes them.

- `firstFree_not_mem`: where different numbers have different names the loop stops, with a name that is free;
- `mem_of_lt_firstFree`: the names before it are taken;
- `padded_injective`: the same digits are the same number.
-/
import Mathlib.Tactic
import Clawbolt.Core.Text

namespace Fresh

open Text (Str)

variable {α : Type*} [DecidableEq α] {name : ℕ → α} {taken : List α}

/-! ## The loop -/

/-- the number after so many rounds at most -/
def searchFree (name : ℕ → α) (taken : List α) : ℕ → ℕ → ℕ
  | 0, i => i
  | rounds + 1, i => if name i ∈ taken then searchFree name taken rounds (i + 1) else i

/-- no more rounds are needed than names are taken -/
def firstFree (name : ℕ → α) (taken : List α) (i : ℕ) : ℕ := searchFree name taken taken.length i

theorem mem_of_lt_searchFree {rounds i j : ℕ} (hij : i ≤ j) (hj : j < searchFree name taken rounds i) : name j ∈ taken := by
  induction rounds generalizing i with
  | zero => exact absurd hj (not_lt.2 hij)
  | succ rounds ih =>
    rw [searchFree] at hj
    split_ifs at hj with h
    · obtain rfl | hlt := hij.eq_or_lt
      · exact h
      · exact ih hlt hj
    · exact absurd hj (not_lt.2 hij)

/-- a search that ends on a taken name used all its rounds -/
theorem searchFree_of_mem {rounds i : ℕ} (h : name (searchFree name taken rounds i) ∈ taken) :
    searchFree name taken rounds i = i + rounds := by
  induction rounds generalizing i with
  | zero => rfl
  | succ rounds ih =>
    rw [searchFree] at h ⊢
    split_ifs at h ⊢ with hmem
    · rw [ih h]
      omega
    · exact absurd h hmem

/-- the names before it are taken -/
theorem mem_of_lt_firstFree {i j : ℕ} (hij : i ≤ j) (hj : j < firstFree name taken i) : name j ∈ taken :=
  mem_of_lt_searchFree hij hj

/-- the loop stops: one of `taken.length + 1` different names is free -/
theorem firstFree_not_mem (hname : Function.Injective name) (taken : List α) (i : ℕ) :
    name (firstFree name taken i) ∉ taken := by
  intro hmem
  have hlast : firstFree name taken i = i + taken.length := searchFree_of_mem hmem
  -- all the names up to the last one are taken, and they are too many
  have hall : ∀ x ∈ (List.range (taken.length + 1)).map fun k => name (i + k), x ∈ taken := by
    intro x hx
    obtain ⟨k, hk, rfl⟩ := List.mem_map.1 hx
    have hk := List.mem_range.1 hk
    by_cases heq : k = taken.length
    · rw [heq, ← hlast]
      exact hmem
    · apply mem_of_lt_firstFree (Nat.le_add_right i k)
      rw [hlast]
      omega
  have hnodup : ((List.range (taken.length + 1)).map fun k => name (i + k)).Nodup :=
    List.nodup_range.map fun a b hab => Nat.add_left_cancel (hname hab)
  have hlen := (hnodup.subperm hall).length_le
  rw [List.length_map, List.length_range] at hlen
  omega

/-! ## Numbers -/

/-- `f"{n:03d}"` -/
def padded (n : ℕ) : Str := List.replicate (3 - (Nat.toDigits 10 n).length) '0' ++ Nat.toDigits 10 n

theorem padded_injective : Function.Injective padded := by
  intro m n h
  have hvalue : ∀ k, Nat.ofDigitChars 10 (padded k) 0 = k := fun k => by
    rw [padded, Nat.ofDigitChars_append, Nat.ofDigitChars_replicate_zero, Nat.mul_zero, Nat.ofDigitChars_ten_toDigits]
  rw [← hvalue m, h, hvalue n]

/-- a number has no other characters than digits -/
theorem isDigit_of_mem_padded {n : ℕ} {c : Char} (h : c ∈ padded n) : c.isDigit = true := by
  obtain h | h := List.mem_append.1 h
  · rw [List.eq_of_mem_replicate h]
    rfl
  · exact Nat.isDigit_of_mem_toDigits (by decide) le_rfl h

end Fresh
