/-
The `n` largest elements of a list, over any linear order (`ORDER BY id DESC LIMIT n`).

- `le_countP_of_not_mem_newest`: an element of a list without duplicates that is not one of them has `n` larger ones.
-/
import Mathlib.Tactic
import Mathlib.Data.List.Sort

namespace Newest

variable {α : Type*} [LinearOrder α]

def newest (n : ℕ) (l : List α) : List α := (l.insertionSort (· ≥ ·)).take n

theorem newest_subset (n : ℕ) (l : List α) : newest n l ⊆ l := fun _ h =>
  (List.mem_insertionSort _).1 (List.mem_of_mem_take h)

theorem length_newest (n : ℕ) (l : List α) : (newest n l).length = min n l.length := by
  simp [newest, List.length_insertionSort]

theorem nodup_newest {l : List α} (h : l.Nodup) (n : ℕ) : (newest n l).Nodup :=
  (((List.perm_insertionSort _ l).nodup_iff).2 h).sublist (List.take_sublist _ _)

/-- what is left out is at most what is kept -/
theorem le_of_mem_newest {n : ℕ} {l : List α} {x y : α} (hx : x ∈ l) (hout : x ∉ newest n l) (hy : y ∈ newest n l) :
    x ≤ y := by
  have hsorted : (l.insertionSort (· ≥ ·)).Pairwise (· ≥ ·) := List.pairwise_insertionSort _ l
  rw [← List.take_append_drop n (l.insertionSort (· ≥ ·)), List.pairwise_append] at hsorted
  have hdrop : x ∈ (l.insertionSort (· ≥ ·)).drop n := by
    have hmem : x ∈ l.insertionSort (· ≥ ·) := (List.mem_insertionSort _).2 hx
    rw [← List.take_append_drop n (l.insertionSort (· ≥ ·)), List.mem_append] at hmem
    exact hmem.resolve_left hout
  exact hsorted.2.2 y hy x hdrop

theorem le_countP_of_not_mem_newest {n : ℕ} {l : List α} (hl : l.Nodup) {x : α} (hx : x ∈ l) (hout : x ∉ newest n l) :
    n ≤ l.countP fun y => decide (x < y) := by
  have hlt : ∀ y ∈ newest n l, x < y := by
    intro y hy
    refine lt_of_le_of_ne (le_of_mem_newest hx hout hy) ?_
    rintro rfl
    exact hout hy
  have hlong : n ≤ l.length := by
    by_contra hshort
    refine hout ?_
    rw [newest, List.take_of_length_le (by rw [List.length_insertionSort]; omega)]
    exact (List.mem_insertionSort _).2 hx
  calc n = (newest n l).length := by rw [length_newest, min_eq_left hlong]
    _ = (newest n l).countP fun y => decide (x < y) := by
        rw [eq_comm, List.countP_eq_length]
        simpa using hlt
    _ ≤ l.countP fun y => decide (x < y) :=
        ((nodup_newest hl n).subperm (newest_subset n l)).countP_le _

end Newest
