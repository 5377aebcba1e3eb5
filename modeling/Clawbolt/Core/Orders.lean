/-
Orders given by several keys, one after the other, and lists sorted by them. Elements that no key tells apart keep their
order.

- `Weak.andThen`: a second key orders what the first one does not;
- `filter_sorted`: elements that are all equal keep their order.
-/
import Mathlib.Tactic
import Mathlib.Data.List.Sort

namespace Orders

variable {α β : Type}

/-- an order in which different elements can be equal -/
structure Weak (r : α → α → Bool) : Prop where
  total : ∀ a b, r a b = true ∨ r b a = true
  trans : ∀ a b c, r a b = true → r b c = true → r a c = true

def onKey (f : α → β) (r : β → β → Bool) : α → α → Bool := fun a b => r (f a) (f b)

/-- `s` where `r` does not decide -/
def andThen (r s : α → α → Bool) : α → α → Bool := fun a b => r a b && (!r b a || s a b)

def sorted (r : α → α → Bool) (l : List α) : List α := l.insertionSort fun a b => r a b = true

theorem weak_le [LinearOrder β] : Weak fun a b : β => decide (a ≤ b) where
  total a b := by
    rw [decide_eq_true_eq, decide_eq_true_eq]
    exact le_total a b
  trans a b c hab hbc := by
    rw [decide_eq_true_eq] at hab hbc ⊢
    exact hab.trans hbc

theorem Weak.key {r : β → β → Bool} (h : Weak r) (f : α → β) : Weak (onKey f r) where
  total a b := h.total (f a) (f b)
  trans a b c := h.trans (f a) (f b) (f c)

theorem Weak.andThen {r s : α → α → Bool} (hr : Weak r) (hs : Weak s) : Weak (andThen r s) where
  total a b := by
    simp only [Orders.andThen, Bool.and_eq_true, Bool.or_eq_true, Bool.not_eq_true']
    cases hab : r a b with
    | false => exact .inr ⟨(hr.total a b).resolve_left (Bool.eq_false_iff.1 hab), .inl rfl⟩
    | true =>
      cases hba : r b a with
      | false => exact .inl ⟨rfl, .inl rfl⟩
      | true => exact (hs.total a b).imp (fun h => ⟨rfl, .inr h⟩) fun h => ⟨rfl, .inr h⟩
  trans a b c := by
    simp only [Orders.andThen, Bool.and_eq_true, Bool.or_eq_true, Bool.not_eq_true']
    rintro ⟨hab, hab'⟩ ⟨hbc, hbc'⟩
    refine ⟨hr.trans a b c hab hbc, ?_⟩
    cases hca : r c a with
    | false => exact .inl rfl
    | true =>
      -- all three are equal for the first key
      have hba := hr.trans b c a hbc hca
      have hcb := hr.trans c a b hca hab
      rw [hba] at hab'
      rw [hcb] at hbc'
      exact .inr (hs.trans a b c (hab'.resolve_left Bool.noConfusion) (hbc'.resolve_left Bool.noConfusion))

theorem perm_sorted (r : α → α → Bool) (l : List α) : (sorted r l).Perm l := List.perm_insertionSort _ l

theorem pairwise_sorted {r : α → α → Bool} (h : Weak r) (l : List α) : (sorted r l).Pairwise fun a b => r a b = true := by
  have : Std.Total fun a b => r a b = true := ⟨h.total⟩
  have : IsTrans α fun a b => r a b = true := ⟨h.trans⟩
  exact List.pairwise_insertionSort _ l

/-- elements that are equal keep their order -/
theorem filter_sorted {r : α → α → Bool} {p : α → Bool} (h : ∀ a b, p a = true → p b = true → r a b = true)
    (l : List α) : (sorted r l).filter p = l.filter p := by
  have hequal : (l.filter p).Pairwise fun a b => r a b = true := by
    apply List.pairwise_of_forall_mem_list
    intro a ha b hb
    exact h a b (List.mem_filter.1 ha).2 (List.mem_filter.1 hb).2
  have hsub : List.Sublist (l.filter p) ((sorted r l).filter p) := by
    have hfilter := (List.sublist_insertionSort hequal List.filter_sublist).filter p
    simp only [List.filter_filter, Bool.and_self] at hfilter
    exact hfilter
  exact (hsub.eq_of_length ((perm_sorted r l).filter p).length_eq.symm).symm

end Orders
