/-
Binary search for the least index of a range with a property. `search p fuel low high` halves the range `[low, high]` at most
`fuel` times, and tests no index but those below `high`.

- `search_spec`: where the property is upward closed, the search finds the least index that has it, or `high`.
-/
import Mathlib.Tactic

namespace Bisect

variable (p : ℕ → Bool)

def search : ℕ → ℕ → ℕ → ℕ
  | 0, low, _ => low
  | fuel + 1, low, high =>
    if low < high then
      let middle := (low + high) / 2
      if p middle then search fuel low middle else search fuel (middle + 1) high
    else low

/-- the first index from `low` up, below `high`, that has the property; or `high` -/
def scan (low high : ℕ) : ℕ := ((List.range' low (high - low)).find? p).getD high

/-- `r` is the least index of the range with the property, or its end -/
structure Least (low high r : ℕ) : Prop where
  low_le : low ≤ r
  le_high : r ≤ high
  below : ∀ i, low ≤ i → i < r → p i = false
  at_ : r < high → p r = true

variable {p}

theorem Least.unique {low high r r' : ℕ} (h : Least p low high r) (h' : Least p low high r') : r = r' := by
  rcases lt_trichotomy r r' with hlt | heq | hlt
  · have := h'.below r h.low_le hlt
    rw [h.at_ (hlt.trans_le h'.le_high)] at this
    cases this
  · exact heq
  · have := h.below r' h'.low_le hlt
    rw [h'.at_ (hlt.trans_le h.le_high)] at this
    cases this

theorem scan_least {low high : ℕ} (hle : low ≤ high) : Least p low high (scan p low high) := by
  unfold scan
  cases hfind : (List.range' low (high - low)).find? p with
  | none =>
    refine ⟨hle, le_rfl, fun i hlow hi => ?_, fun h => absurd h (lt_irrefl _)⟩
    have hmem : i ∈ List.range' low (high - low) := by
      rw [List.mem_range'_1]
      simp only [Option.getD_none] at hi
      omega
    simpa using List.find?_eq_none.1 hfind i hmem
  | some r =>
    obtain ⟨hp, hmem, hbelow⟩ := List.find?_range'_eq_some.1 hfind
    rw [List.mem_range'_1] at hmem
    refine ⟨hmem.1, by simp only [Option.getD_some]; omega, fun i hlow hi => ?_, fun _ => hp⟩
    simpa using hbelow i hlow hi

/-- **The search.** Where the property is upward closed in the range, the search finds the least index that has it. -/
theorem search_spec {fuel low high : ℕ} (hle : low ≤ high) (hfuel : high - low ≤ fuel)
    (hup : ∀ i j, low ≤ i → i ≤ j → j < high → p i = true → p j = true) :
    Least p low high (search p fuel low high) := by
  induction fuel generalizing low high with
  | zero =>
    obtain rfl : low = high := by omega
    exact ⟨le_rfl, le_rfl, fun i hlow hi => absurd hi (not_lt.2 hlow), fun h => absurd h (lt_irrefl _)⟩
  | succ fuel ih =>
    by_cases hlt : low < high
    swap
    · obtain rfl : low = high := by omega
      rw [search, if_neg hlt]
      exact ⟨le_rfl, le_rfl, fun i hlow hi => absurd hi (not_lt.2 hlow), fun h => absurd h (lt_irrefl _)⟩
    by_cases hmid : p ((low + high) / 2) = true
    · rw [search, if_pos hlt, if_pos hmid]
      -- the answer is the middle or below it
      have h := @ih low ((low + high) / 2) (by omega) (by omega) fun i j hi hij hj => hup i j hi hij (by omega)
      refine ⟨h.low_le, h.le_high.trans (by omega), h.below, fun _ => ?_⟩
      rcases Nat.lt_or_ge (search p fuel low ((low + high) / 2)) ((low + high) / 2) with hr | hr
      · exact h.at_ hr
      · rw [le_antisymm h.le_high hr]
        exact hmid
    · rw [search, if_pos hlt, if_neg hmid]
      -- nothing up to the middle has the property
      have h := @ih ((low + high) / 2 + 1) high (by omega) (by omega)
        fun i j hi hij hj => hup i j (by omega) hij hj
      refine ⟨by have := h.low_le; omega, h.le_high, fun i hlow hi => ?_, h.at_⟩
      rcases Nat.lt_or_ge i ((low + high) / 2 + 1) with hi' | hi'
      · by_contra hp
        exact hmid (hup i _ hlow (by omega) (by omega) (by simpa using hp))
      · exact h.below i hi' hi

end Bisect
