/-
Work bucketed by a key, and units of work run side by side. Everything here is over arbitrary items `α` and keys `κ`.

- `buckets key l`: the items of `l` by their key, keys in the order in which they first occur (`mem_buckets`, `keys_buckets`);
- `Interleaving us t`: `t` is the items of the units `us`, those of each unit in its order. Running the units one after
  the other is an interleaving of them (`Interleaving.sequential`), and each unit is a sublist of every one
  (`Interleaving.sublist`);
- `not_before_of_before`: in a list without repetitions one item comes before the other, or the other before the one.
-/
import Mathlib.Tactic

namespace Schedule

variable {α κ : Type*}

/-! ## Buckets -/

section

variable [DecidableEq κ]

/-- `d.setdefault(k, []).append(a)` -/
def addTo (k : κ) (a : α) : List (κ × List α) → List (κ × List α)
  | [] => [(k, [a])]
  | (j, items) :: bs => if j = k then (j, items ++ [a]) :: bs else (j, items) :: addTo k a bs

/-- the items by their key -/
def buckets (key : α → κ) (l : List α) : List (κ × List α) := l.foldl (fun bs a => addTo (key a) a bs) []

theorem buckets_snoc (key : α → κ) (l : List α) (a : α) :
    buckets key (l ++ [a]) = addTo (key a) a (buckets key l) := by
  unfold buckets
  rw [List.foldl_append]
  rfl

theorem keys_addTo (k : κ) (a : α) (bs : List (κ × List α)) :
    (addTo k a bs).map Prod.fst = if k ∈ bs.map Prod.fst then bs.map Prod.fst else bs.map Prod.fst ++ [k] := by
  induction bs with
  | nil => rfl
  | cons b bs ih =>
    obtain ⟨j, items⟩ := b
    by_cases hj : j = k
    · subst hj
      simp [addTo]
    · rw [addTo, if_neg hj, List.map_cons, ih]
      by_cases hk : k ∈ bs.map Prod.fst
      · simp only [hk, if_true, List.map_cons, List.mem_cons, or_true]
      · have hne : k ∉ j :: bs.map Prod.fst := List.not_mem_cons_of_ne_of_not_mem (Ne.symm hj) hk
        rw [if_neg hk, List.map_cons, if_neg hne]
        rfl

theorem keys_nodup (key : α → κ) (l : List α) : ((buckets key l).map Prod.fst).Nodup := by
  induction l using List.reverseRecOn with
  | nil => exact List.nodup_nil
  | append_singleton l a ih =>
    rw [buckets_snoc, keys_addTo]
    split_ifs with h
    · exact ih
    · refine List.nodup_append.2 ⟨ih, List.nodup_singleton _, fun x hx y hy => ?_⟩
      obtain rfl := List.mem_singleton.1 hy
      exact fun he => h (he ▸ hx)

/-- what adding an item does to a bucket -/
theorem mem_addTo {k j : κ} {a : α} {items : List α} {bs : List (κ × List α)} (hnd : (bs.map Prod.fst).Nodup) :
    (j, items) ∈ addTo k a bs ↔
      if j = k then (∃ before, (k, before) ∈ bs ∧ items = before ++ [a]) ∨ (k ∉ bs.map Prod.fst ∧ items = [a])
      else (j, items) ∈ bs := by
  induction bs with
  | nil =>
    by_cases hj : j = k
    · subst hj
      simp [addTo]
    · simp [addTo, hj]
  | cons b bs ih =>
    obtain ⟨i, before⟩ := b
    rw [List.map_cons, List.nodup_cons] at hnd
    have hfst : ∀ {x : List α}, (i, x) ∈ bs → False := by
      intro x hx
      exact hnd.1 (List.mem_map.2 ⟨(i, x), hx, rfl⟩)
    rw [addTo]
    by_cases hi : i = k
    · subst hi
      rw [if_pos rfl]
      by_cases hj : j = i
      · subst hj
        rw [if_pos rfl]
        constructor
        · intro h
          rcases List.mem_cons.1 h with h | h
          · exact Or.inl ⟨before, List.mem_cons_self, (Prod.mk.inj h).2⟩
          · exact (hfst h).elim
        · intro h
          rcases h with ⟨b', hb', rfl⟩ | ⟨hnot, -⟩
          · rcases List.mem_cons.1 hb' with hb' | hb'
            · obtain ⟨-, rfl⟩ := Prod.mk.inj hb'
              exact List.mem_cons_self
            · exact (hfst hb').elim
          · exact absurd (by simp) hnot
      · rw [if_neg hj]
        simp [hj]
    · rw [if_neg hi, List.mem_cons, ih hnd.2]
      by_cases hj : j = k
      · subst hj
        rw [if_pos rfl, if_pos rfl]
        have hji : j ≠ i := Ne.symm hi
        simp [hji]
      · rw [if_neg hj, if_neg hj, List.mem_cons]

/-- **What a bucket holds.** The items with its key, in order. -/
theorem mem_buckets (key : α → κ) (l : List α) (k : κ) (items : List α) :
    (k, items) ∈ buckets key l ↔ items = l.filter (key · = k) ∧ items ≠ [] := by
  induction l using List.reverseRecOn generalizing items with
  | nil =>
    constructor
    · intro h
      exact absurd h List.not_mem_nil
    · intro h
      exact absurd h.1 h.2
  | append_singleton l a ih =>
    rw [buckets_snoc, mem_addTo (keys_nodup key l), List.filter_append]
    by_cases hk : k = key a
    · subst hk
      rw [if_pos rfl]
      have hone : [a].filter (key · = key a) = [a] := by simp
      have hkey : key a ∈ (buckets key l).map Prod.fst ↔ l.filter (key · = key a) ≠ [] := by
        constructor
        · intro h
          obtain ⟨⟨j, items'⟩, hm, rfl⟩ := List.mem_map.1 h
          obtain ⟨h1, h2⟩ := (ih items').1 hm
          exact h1 ▸ h2
        · intro h
          exact List.mem_map_of_mem (f := Prod.fst) ((ih _).2 ⟨rfl, h⟩)
      rw [hone, hkey]
      constructor
      · intro h
        rcases h with ⟨before, hb, rfl⟩ | ⟨hnot, rfl⟩
        · exact ⟨by rw [((ih before).1 hb).1], by simp⟩
        · rw [not_not] at hnot
          simp [hnot]
      · intro h
        obtain ⟨rfl, -⟩ := h
        by_cases hnil : l.filter (key · = key a) = []
        · exact Or.inr ⟨by simpa using hnil, by rw [hnil]; rfl⟩
        · exact Or.inl ⟨_, (ih _).2 ⟨rfl, hnil⟩, rfl⟩
    · rw [if_neg hk]
      have hone : [a].filter (key · = k) = [] := by simp [Ne.symm hk]
      rw [hone, List.append_nil, ih]

theorem perm_addTo (k : κ) (a : α) (bs : List (κ × List α)) :
    ((addTo k a bs).flatMap Prod.snd).Perm (bs.flatMap Prod.snd ++ [a]) := by
  induction bs with
  | nil => simp [addTo]
  | cons b bs ih =>
    obtain ⟨j, items⟩ := b
    rw [addTo]
    split_ifs with hj
    · simp only [List.flatMap_cons, List.append_assoc]
      exact List.Perm.append_left _ List.perm_append_comm
    · simp only [List.flatMap_cons, List.append_assoc]
      exact List.Perm.append_left _ ih

/-- bucketing loses and repeats nothing -/
theorem perm_buckets (key : α → κ) (l : List α) : ((buckets key l).flatMap Prod.snd).Perm l := by
  induction l using List.reverseRecOn with
  | nil => exact List.Perm.nil
  | append_singleton l a ih =>
    rw [buckets_snoc]
    exact (perm_addTo _ _ _).trans (ih.append_right [a])

end

/-! ## Tables -/

/-- with distinct keys, every entry is the one a lookup finds -/
theorem lookup_of_mem {β : Type*} {l : List (ℕ × β)} (hnd : (l.map Prod.fst).Nodup) {k : ℕ} {b : β} (hm : (k, b) ∈ l) :
    l.lookup k = some b := by
  induction l with
  | nil => simp at hm
  | cons x l ih =>
    obtain ⟨j, c⟩ := x
    rw [List.map_cons, List.nodup_cons] at hnd
    rcases List.mem_cons.1 hm with h | hm
    · obtain ⟨rfl, rfl⟩ := Prod.mk.inj h
      exact List.lookup_cons_self
    · have hne : (k == j) = false := beq_eq_false_iff_ne.2 fun he => hnd.1 (he ▸ List.mem_map.2 ⟨(k, b), hm, rfl⟩)
      rw [List.lookup_cons, hne]
      exact ih hnd.2 hm

/-- a fold over the positions of a list that looks its items up is the fold over the list -/
theorem foldl_range_lookup {σ β : Type*} (look : ℕ → Option β) (f : σ → β → σ) (l : List β) (s : σ)
    (h : ∀ i, ∀ hi : i < l.length, look i = some (l.get ⟨i, hi⟩)) :
    (List.range l.length).foldl (fun s i => match look i with | some b => f s b | none => s) s = l.foldl f s := by
  induction l using List.reverseRecOn with
  | nil => rfl
  | append_singleton l b ih =>
    have hpre : ∀ i, ∀ hi : i < l.length, look i = some (l.get ⟨i, hi⟩) := by
      intro i hi
      rw [h i (by rw [List.length_append]; omega)]
      simp [List.getElem_append_left hi]
    have hlast : look l.length = some b := by
      rw [h l.length (by simp)]
      simp
    rw [List.length_append, List.length_singleton, List.range_succ, List.foldl_append, ih hpre, List.foldl_append]
    simp only [List.foldl_cons, List.foldl_nil, hlast]

/-! ## Units side by side -/

/-- `t` takes the next item of some unit until the units are empty -/
inductive Interleaving : List (List α) → List α → Prop where
  | done {us : List (List α)} (h : ∀ u ∈ us, u = []) : Interleaving us []
  | step (us : List (List α)) (a : α) (u : List α) (vs : List (List α)) {t : List α}
      (h : Interleaving (us ++ u :: vs) t) : Interleaving (us ++ (a :: u) :: vs) (a :: t)

namespace Interleaving

theorem perm {us : List (List α)} {t : List α} (h : Interleaving us t) : t.Perm us.flatten := by
  induction h with
  | done h =>
    rw [List.flatten_eq_nil_iff.2 h]
  | step us a u vs _ ih =>
    rw [List.flatten_append, List.flatten_cons] at ih ⊢
    rw [List.cons_append]
    exact (ih.cons a).trans List.perm_middle.symm

theorem sublist {us : List (List α)} {t : List α} (h : Interleaving us t) {u : List α} (hu : u ∈ us) : u.Sublist t := by
  induction h generalizing u with
  | done h =>
    rw [h u hu]
  | step us a v vs _ ih =>
    rcases List.mem_append.1 hu with hu | hu
    · exact (ih (List.mem_append_left _ hu)).cons a
    · rcases List.mem_cons.1 hu with rfl | hu
      · exact (ih (by simp)).cons_cons a
      · exact (ih (by simp [hu])).cons a

theorem cons_nil {us : List (List α)} {t : List α} (h : Interleaving us t) : Interleaving ([] :: us) t := by
  induction h with
  | done h => exact .done (by simpa using h)
  | step us a u vs _ ih => exact .step ([] :: us) a u vs ih

/-- one unit after the other -/
theorem sequential (us : List (List α)) : Interleaving us us.flatten := by
  induction us with
  | nil => exact .done (by simp)
  | cons u us ih =>
    induction u with
    | nil => simpa using ih.cons_nil
    | cons a u ihu => exact .step [] a u us ihu

end Interleaving

/-! ## Before and after -/

/-- in a sorted list the smaller item comes first -/
theorem before_of_lt {l : List α} {f : α → ℕ} (hs : l.Pairwise fun a b => f a < f b) {a b : α} (ha : a ∈ l) (hb : b ∈ l)
    (hlt : f a < f b) : [a, b].Sublist l := by
  induction l with
  | nil => simp at ha
  | cons x l ih =>
    obtain ⟨h1, h2⟩ := List.pairwise_cons.1 hs
    rcases List.mem_cons.1 ha with hax | ha'
    · subst hax
      rcases List.mem_cons.1 hb with hba | hb'
      · subst hba
        exact absurd hlt (lt_irrefl _)
      · exact (List.singleton_sublist.2 hb').cons_cons a
    · rcases List.mem_cons.1 hb with hbx | hb'
      · subst hbx
        exact absurd (hlt.trans (h1 a ha')) (lt_irrefl _)
      · exact (ih h2 ha' hb').cons x

theorem before_append {l m : List α} {a b : α} (ha : a ∈ l) (hb : b ∈ m) : [a, b].Sublist (l ++ m) :=
  (List.singleton_sublist.2 ha).append (List.singleton_sublist.2 hb)

/-- in a list without repetitions two items do not come in both orders -/
theorem not_before_of_before {l : List α} (hnd : l.Nodup) {a b : α} (h : [a, b].Sublist l) : ¬[b, a].Sublist l := by
  intro h'
  induction l with
  | nil => simp at h
  | cons x l ih =>
    obtain ⟨hx, hl⟩ := List.nodup_cons.1 hnd
    cases h with
    | cons _ h =>
      cases h' with
      | cons _ h' => exact ih hl h h'
      | cons_cons _ h' => exact hx (h.subset (by simp))
    | cons_cons _ h =>
      cases h' with
      | cons _ h' => exact hx (h'.subset (by simp))
      | cons_cons _ h' => exact hx (h.subset (by simp))

end Schedule
