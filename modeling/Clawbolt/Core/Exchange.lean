/-
Calls and answers in a list. An item makes calls, answers one call, or does neither. In a settled list the answers to the
calls of an item follow it directly, one for each call, and no answer stands anywhere else.

The keys `κ` of the calls are arbitrary. Items of a type `α` are read through a map to `Item κ`.

- `Settled.append`, `Settled.split`: settled lists can be joined, and cut before any item that is not an answer;
- `settled_drop`: in a grouping whose groups take the answers to their calls, the first groups of a settled list can be
  dropped.
-/
import Mathlib.Tactic
import Clawbolt.Core.Groups

namespace Exchange

inductive Item (κ : Type*) where
  | plain
  | call (keys : List κ)
  | answer (key : κ)
deriving DecidableEq

variable {κ : Type*}

inductive Settled : List (Item κ) → Prop where
  | nil : Settled []
  | plain {l : List (Item κ)} : Settled l → Settled (.plain :: l)
  | call {keys : List κ} {answers l : List (Item κ)} : answers.Perm (keys.map .answer) → Settled l →
      Settled (.call keys :: (answers ++ l))

/-- an answer, to any call -/
def IsAnswer (i : Item κ) : Prop := ∃ key, i = .answer key

/-- the first item of the list, if there is one, is no answer -/
def Opens (l : List (Item κ)) : Prop := ∀ i ∈ l.head?, ¬IsAnswer i

theorem answers_of_perm {keys : List κ} {answers : List (Item κ)} (h : answers.Perm (keys.map .answer)) :
    ∀ i ∈ answers, IsAnswer i := by
  intro i hi
  obtain ⟨key, -, rfl⟩ := List.mem_map.1 (h.mem_iff.1 hi)
  exact ⟨key, rfl⟩

theorem Settled.opens {l : List (Item κ)} (h : Settled l) : Opens l := by
  cases h with
  | nil => simp [Opens]
  | plain _ => simp [Opens, IsAnswer]
  | call _ _ => simp [Opens, IsAnswer]

theorem Settled.append {l m : List (Item κ)} (hl : Settled l) (hm : Settled m) : Settled (l ++ m) := by
  induction hl with
  | nil => exact hm
  | plain _ ih => exact .plain ih
  | call hp _ ih =>
    rw [List.cons_append, List.append_assoc]
    exact .call hp ih

/-- two ways to cut one list into answers and the rest: the first cut comes first, if what follows the second opens -/
theorem cut_answers {answers l a b : List (Item κ)} (hall : ∀ i ∈ answers, IsAnswer i) (h : answers ++ l = a ++ b)
    (hb : Opens b) : ∃ c, a = answers ++ c ∧ l = c ++ b := by
  rcases List.append_eq_append_iff.1 h with ⟨c, ha, hl⟩ | ⟨c, ha, hl⟩
  · exact ⟨c, ha, hl⟩
  · cases c with
    | nil => exact ⟨[], by simpa using ha.symm, by simpa using hl.symm⟩
    | cons i c =>
      -- the rest would start with an answer
      refine absurd (hall i ?_) (hb i (by simp [hl]))
      rw [ha]
      simp

/-- **A settled list is cut into settled lists** before any item that is no answer. -/
theorem Settled.split {a b : List (Item κ)} (h : Settled (a ++ b)) (hb : Opens b) : Settled a ∧ Settled b := by
  generalize hl : a ++ b = l at h
  induction h generalizing a with
  | nil =>
    obtain ⟨rfl, rfl⟩ := List.append_eq_nil_iff.1 hl
    exact ⟨.nil, .nil⟩
  | @plain l h ih =>
    cases a with
    | nil =>
      obtain rfl : b = .plain :: l := hl
      exact ⟨.nil, .plain h⟩
    | cons i a =>
      obtain ⟨rfl, htail⟩ := List.cons.inj hl
      obtain ⟨ha, hb'⟩ := ih htail
      exact ⟨.plain ha, hb'⟩
  | @call keys answers l hp h ih =>
    cases a with
    | nil =>
      obtain rfl : b = .call keys :: (answers ++ l) := hl
      exact ⟨.nil, .call hp h⟩
    | cons i a =>
      obtain ⟨rfl, htail⟩ := List.cons.inj hl
      obtain ⟨c, rfl, hc⟩ := cut_answers (answers_of_perm hp) htail.symm hb
      obtain ⟨hc', hb'⟩ := ih hc.symm
      exact ⟨.call hp hc', hb'⟩

/-! ## Groups of exchanges -/

section

variable {α : Type*} (view : α → Item κ) (joins : List α → α → Bool)

/-- a grouping whose groups take the answers to their calls: an item with calls starts a group, and while the group holds
only it and answers, an answer joins -/
structure TakesAnswers : Prop where
  starts : ∀ a keys, view a = .call keys → ∀ g, joins g a = false
  joins : ∀ a keys done b key, view a = .call keys → (∀ x ∈ done, IsAnswer (view x)) → view b = .answer key →
    joins (a :: done) b = true

variable {view joins}

/-- an item of a group that opens joins it, or starts a group -/
theorem opens_add {groups : List (List α)} {a : α} (hgroups : ∀ g ∈ groups, g ≠ [] ∧ Opens (g.map view))
    (ha : ¬IsAnswer (view a)) : ∀ g ∈ Groups.add joins groups a, g ≠ [] ∧ Opens (g.map view) := by
  have hone : [a] ≠ [] ∧ Opens ([a].map view) := ⟨List.cons_ne_nil _ _, by simpa [Opens] using ha⟩
  rcases Groups.cases_snoc groups with rfl | ⟨init, g, rfl⟩
  · simpa [Groups.add_nil] using hone
  · rw [Groups.add_snoc]
    intro x hx
    split_ifs at hx <;> rcases List.mem_append.1 hx with hx | hx
    · exact hgroups x (List.mem_append_left _ hx)
    · obtain rfl := List.mem_singleton.1 hx
      obtain ⟨hne, hopen⟩ := hgroups g (by simp)
      obtain ⟨b, g, rfl⟩ := List.exists_cons_of_ne_nil hne
      exact ⟨by simp, hopen⟩
    · exact hgroups x hx
    · obtain rfl := List.mem_singleton.1 hx
      exact hone

/-- the answers to the calls of an item join its group -/
theorem add_answers (h : TakesAnswers view joins) {a : α} {keys : List κ} (ha : view a = .call keys)
    (init : List (List α)) (done : List α) {more : List α} (hdone : ∀ x ∈ done, IsAnswer (view x))
    (hmore : ∀ x ∈ more, IsAnswer (view x)) :
    more.foldl (Groups.add joins) (init ++ [a :: done]) = init ++ [a :: (done ++ more)] := by
  induction more generalizing done with
  | nil => simp
  | cons b more ih =>
    obtain ⟨key, hb⟩ := hmore b List.mem_cons_self
    rw [List.foldl_cons, Groups.add_snoc, if_pos (h.joins a keys done b key ha hdone hb), List.cons_append,
      ih _ (fun x hx => ?_) fun x hx => hmore x (List.mem_cons_of_mem _ hx)]
    · simp
    · rcases List.mem_append.1 hx with hx | hx
      · exact hdone x hx
      · exact List.mem_singleton.1 hx ▸ ⟨key, hb⟩

theorem opens_foldl (h : TakesAnswers view joins) {l : List α} (hl : Settled (l.map view)) {groups : List (List α)}
    (hgroups : ∀ g ∈ groups, g ≠ [] ∧ Opens (g.map view)) :
    ∀ g ∈ l.foldl (Groups.add joins) groups, g ≠ [] ∧ Opens (g.map view) := by
  generalize hitems : l.map view = items at hl
  induction hl generalizing l groups with
  | nil =>
    obtain rfl := List.map_eq_nil_iff.1 hitems
    exact hgroups
  | plain _ ih =>
    obtain ⟨a, l, rfl, ha, rfl⟩ := List.map_eq_cons_iff.1 hitems
    rw [List.foldl_cons]
    exact ih (opens_add hgroups (by simp [ha, IsAnswer])) rfl
  | @call keys answers rest hp _ ih =>
    obtain ⟨a, l, rfl, ha, htail⟩ := List.map_eq_cons_iff.1 hitems
    obtain ⟨more, l, rfl, rfl, rfl⟩ := List.map_eq_append_iff.1 htail
    have hmore : ∀ x ∈ more, IsAnswer (view x) := fun x hx => answers_of_perm hp _ (List.mem_map_of_mem hx)
    have hstart : Groups.add joins groups a = groups ++ [[a]] := by
      rcases Groups.cases_snoc groups with rfl | ⟨init, g, rfl⟩
      · rfl
      · rw [Groups.add_snoc, if_neg (by simp [h.starts a keys ha g])]
    rw [List.foldl_cons, List.foldl_append, hstart,
      add_answers h ha groups [] (by simp) hmore]
    refine ih (fun g hg => ?_) rfl
    rcases List.mem_append.1 hg with hg | hg
    · exact hgroups g hg
    · obtain rfl := List.mem_singleton.1 hg
      exact ⟨List.cons_ne_nil _ _, by simp [Opens, ha, IsAnswer]⟩

/-- every group of a settled list starts with an item that is no answer -/
theorem opens_group (h : TakesAnswers view joins) {l : List α} (hl : Settled (l.map view)) :
    ∀ g ∈ Groups.group joins l, g ≠ [] ∧ Opens (g.map view) :=
  opens_foldl h hl (by simp)

/-- **Dropping groups.** What remains of a settled list without its first groups is settled. -/
theorem settled_drop (h : TakesAnswers view joins) {l : List α} (hl : Settled (l.map view)) (k : ℕ) :
    Settled (((Groups.group joins l).drop k).flatten.map view) := by
  have hsplit : l = ((Groups.group joins l).take k).flatten ++ ((Groups.group joins l).drop k).flatten := by
    rw [← List.flatten_append, List.take_append_drop, Groups.flatten_group]
  have hall : ∀ g ∈ (Groups.group joins l).drop k, g ≠ [] ∧ Opens (g.map view) :=
    fun g hg => opens_group h hl g (List.mem_of_mem_drop hg)
  rw [hsplit, List.map_append] at hl
  refine (hl.split ?_).2
  cases hd : (Groups.group joins l).drop k with
  | nil => simp [Opens]
  | cons g rest =>
    obtain ⟨hne, hopen⟩ := hall g (by rw [hd]; exact List.mem_cons_self)
    obtain ⟨a, g, rfl⟩ := List.exists_cons_of_ne_nil hne
    exact hopen

end

end Exchange
