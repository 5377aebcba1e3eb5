/-
A bound on the length of a list, enforced in an order: the elements that are too many leave from the front of the order.
Everything here is over arbitrary elements `α` and relations `R`.

- `length_kept_le`: the bound;
- `rel_of_evicted`: what leaves stands before all that stays;
- `rel_of_single`: of one element too many, what leaves stands before all the others.
-/
import Mathlib.Tactic

namespace Overflow

variable {α : Type*} [DecidableEq α]

/-- what is too many -/
def excess (n : ℕ) (order : List α) : List α := order.take (order.length - n)

def kept (n : ℕ) (order l : List α) : List α := l.filter fun x => x ∉ excess n order

variable {n : ℕ} {order l : List α}

theorem mem_kept {x : α} : x ∈ kept n order l ↔ x ∈ l ∧ x ∉ excess n order := by
  rw [kept, List.mem_filter, decide_eq_true_eq]

theorem kept_of_le (hperm : order.Perm l) (h : l.length ≤ n) : kept n order l = l := by
  have hover : excess n order = [] := by
    rw [excess, hperm.length_eq, Nat.sub_eq_zero_of_le h, List.take_zero]
  rw [kept, hover]
  exact List.filter_eq_self.2 fun x _ => decide_eq_true List.not_mem_nil

/-- what stays, in the order -/
theorem kept_perm (hperm : order.Perm l) (hl : l.Nodup) : (kept n order l).Perm (order.drop (order.length - n)) := by
  refine (List.perm_ext_iff_of_nodup (hl.filter _) ((hperm.nodup_iff.2 hl).sublist (List.drop_sublist _ _))).2 fun x => ?_
  have hsplit := List.take_append_drop (order.length - n) order
  have hdisjoint : (order.take (order.length - n)).Disjoint (order.drop (order.length - n)) := by
    have hnodup := hperm.nodup_iff.2 hl
    rw [← hsplit] at hnodup
    exact (List.nodup_append'.1 hnodup).2.2
  change x ∈ kept n order l ↔ _
  rw [mem_kept]
  constructor
  · rintro ⟨hx, hout⟩
    have hmem := hperm.mem_iff.2 hx
    rw [← hsplit, List.mem_append] at hmem
    exact hmem.resolve_left hout
  · intro hx
    exact ⟨hperm.mem_iff.1 (List.mem_of_mem_drop hx), fun hover => hdisjoint hover hx⟩

theorem length_kept_le (hperm : order.Perm l) (hl : l.Nodup) : (kept n order l).length ≤ n := by
  rw [(kept_perm hperm hl).length_eq, List.length_drop]
  omega

theorem rel_of_evicted {R : α → α → Prop} (hperm : order.Perm l) (hl : l.Nodup) (hR : order.Pairwise R) {x y : α}
    (hx : x ∈ l) (hout : x ∉ kept n order l) (hy : y ∈ kept n order l) : R x y := by
  have hover : x ∈ excess n order := by
    by_contra hin
    exact hout (mem_kept.2 ⟨hx, hin⟩)
  have hdrop := (kept_perm hperm hl).mem_iff.1 hy
  rw [← List.take_append_drop (order.length - n) order, List.pairwise_append] at hR
  exact hR.2.2 x hover y hdrop

theorem rel_of_single {R : α → α → Prop} (hperm : order.Perm l) (hl : l.Nodup) (hR : order.Pairwise R)
    (hlen : l.length ≤ n + 1) {x y : α} (hx : x ∈ l) (hout : x ∉ kept n order l) (hy : y ∈ l) (hne : y ≠ x) : R x y := by
  refine rel_of_evicted hperm hl hR hx hout (mem_kept.2 ⟨hy, fun hover => hne ?_⟩)
  have hover' : x ∈ excess n order := by
    by_contra hin
    exact hout (mem_kept.2 ⟨hx, hin⟩)
  -- one element is too many at most
  have hone : (excess n order).length ≤ 1 := by
    rw [excess, List.length_take, hperm.length_eq]
    omega
  obtain ⟨z, hz⟩ := List.length_eq_one_iff.1 (le_antisymm hone (List.length_pos_of_mem hover'))
  rw [hz, List.mem_singleton] at hover hover'
  rw [hover, hover']

end Overflow
