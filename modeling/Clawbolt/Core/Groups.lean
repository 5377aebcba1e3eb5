/-
Cutting a list into groups from left to right: an item joins the last group when the group takes it, and else starts one.
The items `α` and the test `joins` are arbitrary; the test sees the whole group.

- `flatten_group`: the groups are the list, in order;
- `group_drop`: the groups that remain after the first few are the groups of the items that remain;
- `group_append`, `group_append_of_last`: where an item starts a group, the groups before it are those of the items before
  it;
- `group_eq_singleton`: items that the group so far takes, one after the other, are one group;
- `starts_group`: each group but the first starts with an item that the group before it does not take.
-/
import Mathlib.Tactic

namespace Groups

variable {α : Type*} (joins : List α → α → Bool)

/-- one more item -/
def add (groups : List (List α)) (a : α) : List (List α) :=
  match groups.getLast? with
  | none => [[a]]
  | some g => if joins g a then groups.dropLast ++ [g ++ [a]] else groups ++ [[a]]

def group (l : List α) : List (List α) := l.foldl (add joins) []

@[simp] theorem group_nil : group joins [] = [] := rfl

theorem add_nil (a : α) : add joins [] a = [[a]] := rfl

theorem add_snoc (groups : List (List α)) (g : List α) (a : α) :
    add joins (groups ++ [g]) a = if joins g a then groups ++ [g ++ [a]] else groups ++ [g] ++ [[a]] := by
  simp [add]

theorem group_snoc (l : List α) (a : α) : group joins (l ++ [a]) = add joins (group joins l) a := by
  simp [group, List.foldl_append]

/-- a list of groups is empty, or ends in one -/
theorem cases_snoc (groups : List (List α)) : groups = [] ∨ ∃ init g, groups = init ++ [g] := by
  rcases List.eq_nil_or_concat groups with h | ⟨init, g, h⟩
  · exact Or.inl h
  · exact Or.inr ⟨init, g, by simpa using h⟩

theorem flatten_group (l : List α) : (group joins l).flatten = l := by
  induction l using List.reverseRecOn with
  | nil => rfl
  | append_singleton l a ih =>
    rw [group_snoc]
    rcases cases_snoc (group joins l) with h | ⟨init, g, h⟩
    · rw [h] at ih ⊢
      simp only [List.flatten_nil] at ih
      simp [add_nil, ← ih]
    · rw [h] at ih ⊢
      rw [add_snoc]
      split_ifs <;> simp [← ih]

theorem group_ne_nil {l : List α} (h : l ≠ []) : group joins l ≠ [] := by
  intro h'
  have := flatten_group joins l
  rw [h'] at this
  exact h this.symm

/-- no group is empty -/
theorem nonempty_group (l : List α) : ∀ g ∈ group joins l, g ≠ [] := by
  induction l using List.reverseRecOn with
  | nil => simp
  | append_singleton l a ih =>
    rw [group_snoc]
    rcases cases_snoc (group joins l) with h | ⟨init, g, h⟩
    · rw [h, add_nil]; simp
    · rw [h] at ih ⊢
      rw [add_snoc]
      intro x hx
      split_ifs at hx <;> rcases List.mem_append.1 hx with hx | hx
      · exact ih x (List.mem_append_left _ hx)
      · simp only [List.mem_singleton] at hx; simp [hx]
      · exact ih x hx
      · simp only [List.mem_singleton] at hx; simp [hx]

theorem length_group_le (l : List α) : (group joins l).length ≤ l.length := by
  induction l using List.reverseRecOn with
  | nil => exact le_rfl
  | append_singleton l a ih =>
    rw [group_snoc, List.length_append, List.length_singleton]
    rcases cases_snoc (group joins l) with h | ⟨init, g, h⟩
    · rw [h]; simp [add_nil]
    · rw [h, List.length_append, List.length_singleton] at ih
      rw [h, add_snoc]
      split_ifs <;> simp <;> omega

/-- an item that no group takes is a group of its own -/
theorem group_snoc_of_not_joins (l : List α) (a : α) (h : ∀ g, joins g a = false) :
    group joins (l ++ [a]) = group joins l ++ [[a]] := by
  rw [group_snoc]
  rcases cases_snoc (group joins l) with h' | ⟨init, g, h'⟩
  · rw [h', add_nil]; rfl
  · rw [h', add_snoc, if_neg (by simp [h g])]

/-- **Groups that remain.** Grouping the items of the last groups gives those groups. -/
theorem group_drop (l : List α) (s : ℕ) : group joins ((group joins l).drop s).flatten = (group joins l).drop s := by
  induction l using List.reverseRecOn with
  | nil => simp
  | append_singleton l a ih =>
    rw [group_snoc]
    rcases cases_snoc (group joins l) with h | ⟨init, g, h⟩
    · rw [h, add_nil]
      cases s <;> simp [group, add_nil]
    · rw [h] at ih ⊢
      rw [add_snoc]
      rcases Nat.lt_or_ge init.length s with hs | hs
      · -- at most the item's own group remains
        split_ifs with hin
        · rw [List.drop_eq_nil_of_le (by simp; omega)]; rfl
        · rcases Nat.lt_or_ge (init.length + 1) s with hs' | hs'
          · rw [List.drop_eq_nil_of_le (by simp; omega)]; rfl
          · obtain rfl : s = (init ++ [g]).length := by simp; omega
            rw [List.drop_left]; rfl
      · have hd : (init ++ [g]).drop s = init.drop s ++ [g] := List.drop_append_of_le_length hs
        rw [hd] at ih
        split_ifs with hin
        · have hflat : (init.drop s ++ [g ++ [a]]).flatten = (init.drop s ++ [g]).flatten ++ [a] := by simp
          rw [List.drop_append_of_le_length hs, hflat, group_snoc, ih, add_snoc, if_pos hin]
        · rw [List.drop_append_of_le_length (by simp; omega), hd, List.flatten_append, List.flatten_singleton,
            group_snoc, ih, add_snoc, if_neg hin]

/-- each group but the first starts with an item that some group did not take -/
theorem starts_group (l : List α) : ∀ g ∈ (group joins l).tail, ∃ a, g.head? = some a ∧ ∃ b, joins b a = false := by
  induction l using List.reverseRecOn with
  | nil => simp
  | append_singleton l a ih =>
    rw [group_snoc]
    have hne := nonempty_group joins l
    rcases cases_snoc (group joins l) with h | ⟨init, g, h⟩
    · rw [h, add_nil]; simp
    · rw [h] at ih hne ⊢
      rw [add_snoc]
      intro x hx
      split_ifs at hx with hj
      · cases init with
        | nil => simp at hx
        | cons b init =>
          simp only [List.cons_append, List.tail_cons, List.mem_append, List.mem_singleton] at hx
          rcases hx with hx | rfl
          · exact ih x (by simp [hx])
          · obtain ⟨c, g, rfl⟩ := List.exists_cons_of_ne_nil (hne g (by simp))
            simpa using ih (c :: g) (by simp)
      · rw [List.tail_append_of_ne_nil (by simp)] at hx
        rcases List.mem_append.1 hx with hx | hx
        · exact ih x hx
        · simp only [List.mem_singleton] at hx
          exact ⟨a, by simp [hx], g, by simpa using hj⟩

theorem add_append (groups : List (List α)) {last : List (List α)} (h : last ≠ []) (a : α) :
    add joins (groups ++ last) a = groups ++ add joins last a := by
  rcases cases_snoc last with hnil | ⟨init, g, rfl⟩
  · exact absurd hnil h
  · rw [← List.append_assoc, add_snoc, add_snoc]
    split_ifs <;> simp

/-- where an item starts a group after the last one, the groups before it are those of the items before it -/
theorem group_append_of_last (l m : List α) {a : α} (h : ∀ g, (group joins l).getLast? = some g → joins g a = false) :
    group joins (l ++ a :: m) = group joins l ++ group joins (a :: m) := by
  induction m using List.reverseRecOn with
  | nil =>
    rw [group_snoc]
    rcases cases_snoc (group joins l) with h' | ⟨init, g, h'⟩
    · rw [h', add_nil]; rfl
    · rw [h', add_snoc, if_neg (by simp [h g (by rw [h']; simp)])]
      rfl
  | append_singleton m b ih =>
    have hsplit : l ++ a :: (m ++ [b]) = (l ++ a :: m) ++ [b] := by simp
    rw [hsplit, group_snoc, ih, add_append joins _ (group_ne_nil joins (List.cons_ne_nil a m)), ← List.cons_append,
      group_snoc]

/-- where an item starts a group, the groups before it are those of the items before it -/
theorem group_append (l m : List α) {a : α} (h : ∀ g, joins g a = false) :
    group joins (l ++ a :: m) = group joins l ++ group joins (a :: m) :=
  group_append_of_last joins l m fun g _ => h g

/-- items that the group so far takes, one after the other, are one group -/
theorem group_eq_singleton (a : α) (m : List α) (h : ∀ pre x, pre ++ [x] <+: m → joins (a :: pre) x = true) :
    group joins (a :: m) = [a :: m] := by
  induction m using List.reverseRecOn with
  | nil => rfl
  | append_singleton m b ih =>
    have hm := ih fun pre x hpre => h pre x (hpre.trans (List.prefix_append _ _))
    rw [← List.cons_append, group_snoc, hm, ← List.nil_append [a :: m], add_snoc, if_pos (h m b (List.prefix_refl _))]
    rfl

end Groups
