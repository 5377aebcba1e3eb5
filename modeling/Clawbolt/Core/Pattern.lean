/-
Patterns that are sequences of repeated classes of characters, and the replacement of their matches as `re.sub` makes it:
from left to right, each repetition as long as it can be, with backtracking.

- `matchLength_isSome_iff`: a match is found at a place if and only if a word of the pattern starts there;
- `sub_free`: no word of the pattern is left where its matches were replaced by a sealed label;
- `subAll_free`, `subAll_of_free`: several patterns in turn leave no word of any of them, and change no text without one.
-/
import Mathlib.Tactic
import Mathlib.Data.List.TakeWhile

namespace Pattern

variable {α : Type}

/-- from `least` to `most` characters of a class -/
structure Item (α : Type) where
  set : α → Bool
  least : ℕ
  most : Option ℕ

/-- one character or more -/
def Item.many (least : ℕ) (set : α → Bool) : Item α := ⟨set, least, none⟩

def Item.exactly (n : ℕ) (set : α → Bool) : Item α := ⟨set, n, some n⟩

def Item.optional (set : α → Bool) : Item α := ⟨set, 0, some 1⟩

/-- the words of the items -/
inductive Word : List (Item α) → List α → Prop
  | nil : Word [] []
  | cons {i : Item α} {is : List (Item α)} {u v : List α} (hset : ∀ c ∈ u, i.set c = true) (hleast : i.least ≤ u.length)
    (hmost : ∀ m ∈ i.most, u.length ≤ m) (hrest : Word is v) : Word (i :: is) (u ++ v)

/-! ## A match at one place -/

/-- the longest run that an item can take -/
def Item.run (i : Item α) (t : List α) : ℕ :=
  let n := (t.takeWhile i.set).length
  match i.most with
  | none => n
  | some m => min n m

/-- the first of `least + extra`, …, `least` characters behind which the rest matches -/
def backtrack (rest : ℕ → Option ℕ) (least : ℕ) : ℕ → Option ℕ
  | 0 => (rest least).map (least + ·)
  | extra + 1 => ((rest (least + extra + 1)).map (least + extra + 1 + ·)).or (backtrack rest least extra)

/-- the length of the match at the start of a text -/
def matchLength : List (Item α) → List α → Option ℕ
  | [], _ => some 0
  | i :: is, t =>
    if i.run t < i.least then none else backtrack (fun n => matchLength is (t.drop n)) i.least (i.run t - i.least)

theorem run_le (i : Item α) (t : List α) : i.run t ≤ (t.takeWhile i.set).length := by
  unfold Item.run
  cases i.most with
  | none => exact le_rfl
  | some m => exact min_le_left _ _

theorem run_le_most (i : Item α) (t : List α) {m : ℕ} (hm : m ∈ i.most) : i.run t ≤ m := by
  obtain hm : i.most = some m := hm
  unfold Item.run
  rw [hm]
  exact min_le_right _ _

/-- a run is as long as any piece that the item can take -/
theorem le_run (i : Item α) {u t : List α} (hset : ∀ c ∈ u, i.set c = true) (hmost : ∀ m ∈ i.most, u.length ≤ m) :
    u.length ≤ i.run (u ++ t) := by
  have htake : u.length ≤ ((u ++ t).takeWhile i.set).length := by
    rw [List.takeWhile_append_of_pos hset, List.length_append]
    exact Nat.le_add_right _ _
  unfold Item.run
  cases hm : i.most with
  | none => exact htake
  | some m => exact le_min htake (hmost m hm)

theorem set_of_mem_take_run (i : Item α) (t : List α) {n : ℕ} (hn : n ≤ i.run t) : ∀ c ∈ t.take n, i.set c = true := by
  intro c hc
  have hstart : t.take n <+: t.takeWhile i.set := by
    refine List.prefix_of_prefix_length_le (List.take_prefix n t) (List.takeWhile_prefix _) ?_
    rw [List.length_take]
    exact (min_le_left _ _).trans (hn.trans (run_le i t))
  exact List.mem_takeWhile_imp (hstart.subset hc)

theorem backtrack_eq_some {rest : ℕ → Option ℕ} {least extra r : ℕ} (h : backtrack rest least extra = some r) :
    ∃ n m, least ≤ n ∧ n ≤ least + extra ∧ rest n = some m ∧ r = n + m := by
  induction extra with
  | zero =>
    obtain ⟨m, hm, rfl⟩ := Option.map_eq_some_iff.1 h
    exact ⟨least, m, le_rfl, le_rfl, hm, rfl⟩
  | succ extra ih =>
    rcases Option.or_eq_some_iff.1 h with h | ⟨-, h⟩
    · obtain ⟨m, hm, rfl⟩ := Option.map_eq_some_iff.1 h
      exact ⟨_, m, by omega, le_rfl, hm, rfl⟩
    · obtain ⟨n, m, hn, hle, hm, rfl⟩ := ih h
      exact ⟨n, m, hn, by omega, hm, rfl⟩

theorem backtrack_eq_none {rest : ℕ → Option ℕ} {least extra : ℕ} (h : backtrack rest least extra = none) {n : ℕ}
    (hn : least ≤ n) (hle : n ≤ least + extra) : rest n = none := by
  induction extra with
  | zero =>
    obtain rfl : n = least := by omega
    exact Option.map_eq_none_iff.1 h
  | succ extra ih =>
    obtain ⟨hlast, hrest⟩ := Option.or_eq_none_iff.1 h
    rcases Nat.lt_or_ge n (least + extra + 1) with hlt | hge
    · exact ih hrest (by omega)
    · obtain rfl : n = least + extra + 1 := by omega
      exact Option.map_eq_none_iff.1 hlast

/-- what is matched is a word -/
theorem matchLength_word {is : List (Item α)} {t : List α} {n : ℕ} (h : matchLength is t = some n) : Word is (t.take n) := by
  induction is generalizing t n with
  | nil =>
    obtain rfl : 0 = n := Option.some.inj h
    exact Word.nil
  | cons i is ih =>
    unfold matchLength at h
    split_ifs at h with hshort
    obtain ⟨k, m, hk, hle, hm, rfl⟩ := backtrack_eq_some h
    have hrun : k ≤ i.run t := by omega
    have hlen : (t.take k).length = k := by
      rw [List.length_take, min_eq_left]
      exact hrun.trans ((run_le i t).trans (List.takeWhile_prefix _).length_le)
    rw [List.take_add]
    refine Word.cons (set_of_mem_take_run i t hrun) (by rw [hlen]; exact hk) (fun m hmost => ?_) (ih hm)
    rw [hlen]
    exact hrun.trans (run_le_most i t hmost)

/-- a word that starts at the place is found, or another one -/
theorem matchLength_of_word {is : List (Item α)} {w : List α} (h : Word is w) (t : List α) : matchLength is (w ++ t) ≠ none := by
  induction h generalizing t with
  | nil => nofun
  | @cons i is u v hset hleast hmost _ ih =>
    intro hnone
    have hrun := le_run i (t := v ++ t) hset hmost
    rw [← List.append_assoc] at hrun
    unfold matchLength at hnone
    rw [if_neg (by omega)] at hnone
    have := backtrack_eq_none hnone hleast (by omega)
    rw [List.append_assoc, List.drop_left] at this
    exact ih t this

/-- **A match.** It is found exactly where a word starts. -/
theorem matchLength_isSome_iff {is : List (Item α)} {t : List α} :
    (matchLength is t).isSome = true ↔ ∃ w, w <+: t ∧ Word is w := by
  constructor
  · intro h
    obtain ⟨n, hn⟩ := Option.isSome_iff_exists.1 h
    exact ⟨t.take n, List.take_prefix n t, matchLength_word hn⟩
  · rintro ⟨w, ⟨s, rfl⟩, hw⟩
    exact Option.isSome_iff_ne_none.2 (matchLength_of_word hw s)

/-! ## Texts without a word -/

/-- no word of the items is part of the text -/
def Free (is : List (Item α)) (t : List α) : Prop := ∀ w, w <:+: t → ¬ Word is w

theorem free_iff_tails {is : List (Item α)} {t : List α} : Free is t ↔ ∀ s ∈ t.tails, matchLength is s = none := by
  constructor
  · intro h s hs
    rw [← Option.not_isSome_iff_eq_none, matchLength_isSome_iff]
    rintro ⟨w, hw, hword⟩
    exact h w (hw.isInfix.trans ((List.mem_tails _ _).1 hs).isInfix) hword
  · rintro h w ⟨a, b, rfl⟩ hword
    refine matchLength_of_word hword b (h _ ?_)
    rw [List.mem_tails, List.append_assoc]
    exact List.suffix_append a _

instance (is : List (Item α)) (t : List α) : Decidable (Free is t) := decidable_of_iff _ free_iff_tails.symm

theorem Free.part {is : List (Item α)} {t u : List α} (h : Free is t) (hu : u <:+: t) : Free is u :=
  fun w hw => h w (hw.trans hu)

/-- a character that no item takes -/
def Bar (is : List (Item α)) (b : α) : Prop := ∀ i ∈ is, i.set b = false

theorem Word.not_mem {is : List (Item α)} {w : List α} (h : Word is w) {b : α} (hb : Bar is b) : b ∉ w := by
  induction h with
  | nil => exact List.not_mem_nil
  | @cons i is u v hset _ _ _ ih =>
    intro hmem
    rcases List.mem_append.1 hmem with hu | hv
    · have := hb i List.mem_cons_self
      rw [hset b hu] at this
      cases this
    · exact ih (fun j hj => hb j (List.mem_cons_of_mem i hj)) hv

theorem infix_append_cons {w x y : List α} {b : α} (h : w <:+: x ++ b :: y) (hb : b ∉ w) : w <:+: x ∨ w <:+: y := by
  obtain ⟨s, t, h⟩ := h
  rcases List.append_eq_append_iff.1 h with ⟨a, rfl, -⟩ | ⟨a, hsw, hby⟩
  · exact Or.inl ⟨s, a, rfl⟩
  · cases a with
    | nil => exact Or.inl ⟨s, [], by rw [List.append_nil, hsw, List.append_nil]⟩
    | cons b' a =>
      obtain ⟨rfl, rfl⟩ := List.cons_eq_cons.1 hby
      rcases List.append_eq_append_iff.1 hsw with ⟨a', -, rfl⟩ | ⟨c, -, hw⟩
      · exact absurd (List.mem_append_right a' List.mem_cons_self) hb
      · cases c with
        | nil => exact absurd (by rw [← List.nil_append w, ← hw]; exact List.mem_cons_self) hb
        | cons b' c =>
          obtain ⟨-, rfl⟩ := List.cons_eq_cons.1 hw
          exact Or.inr ⟨c, t, rfl⟩

/-- a character that no item takes parts the words -/
theorem free_append_cons {is : List (Item α)} {x y : List α} {b : α} (hb : Bar is b) :
    Free is (x ++ b :: y) ↔ Free is x ∧ Free is y := by
  refine ⟨fun h => ⟨h.part (List.prefix_append _ _).isInfix, h.part ?_⟩, fun h w hw hword => ?_⟩
  · exact ((List.suffix_cons b y).trans (List.suffix_append x _)).isInfix
  · rcases infix_append_cons hw (hword.not_mem hb) with hx | hy
    · exact h.1 w hx hword
    · exact h.2 w hy hword

/-- a text without the characters of an item that is not optional -/
theorem free_of_lacks {is : List (Item α)} {i : Item α} (hi : i ∈ is) (hleast : 0 < i.least) {t : List α}
    (h : ∀ c ∈ t, i.set c = false) : Free is t := by
  have hchar : ∀ {is w}, Word is w → i ∈ is → ∃ c ∈ w, i.set c = true := by
    intro is w hword
    induction hword with
    | nil => nofun
    | @cons j is u v hset hlong _ _ ih =>
      intro hmem
      rcases List.mem_cons.1 hmem with rfl | hmem
      · obtain ⟨c, hc⟩ := List.exists_mem_of_length_pos (hleast.trans_le hlong)
        exact ⟨c, List.mem_append_left _ hc, hset c hc⟩
      · obtain ⟨c, hc, hset⟩ := ih hmem
        exact ⟨c, List.mem_append_right _ hc, hset⟩
  intro w hw hword
  obtain ⟨c, hc, hset⟩ := hchar hword hi
  rw [h c (hw.subset hc)] at hset
  cases hset

theorem Word.least_le {is : List (Item α)} {w : List α} (h : Word is w) : (is.map Item.least).sum ≤ w.length := by
  induction h with
  | nil => exact le_rfl
  | cons _ hleast _ _ ih =>
    rw [List.map_cons, List.sum_cons, List.length_append]
    exact Nat.add_le_add hleast ih

/-- a text shorter than every word -/
theorem free_of_short {is : List (Item α)} {t : List α} (h : t.length < (is.map Item.least).sum) : Free is t :=
  fun _ hw hword => absurd (hword.least_le.trans hw.length_le) (not_le.2 h)

/-! ## Replacing the matches -/

/-- items of which one is not optional, so that no word is empty -/
structure Shape (α : Type) where
  items : List (Item α)
  positive : ∃ i ∈ items, 0 < i.least

theorem Shape.word_ne_nil (p : Shape α) {w : List α} (h : Word p.items w) : w ≠ [] := by
  rintro rfl
  obtain ⟨i, hi, hleast⟩ := p.positive
  exact free_of_lacks hi hleast (t := []) (fun c hc => absurd hc List.not_mem_nil) [] (List.infix_refl []) h

/-- `p.sub(label, t)`, the first `skip` characters being the rest of a match -/
def Shape.sub (p : Shape α) (label : List α) : ℕ → List α → List α
  | _, [] => []
  | skip + 1, _ :: cs => p.sub label skip cs
  | 0, c :: cs =>
    match matchLength p.items (c :: cs) with
    | some n => label ++ p.sub label (n - 1) cs
    | none => c :: p.sub label 0 cs

/-- a text with its first matches, and what is left when the label stands for each -/
inductive Cut (p : Shape α) (label : List α) : List α → List α → Prop
  | last {g : List α} (hgap : Free p.items g) : Cut p label g g
  | step {g m t out : List α} (hgap : Free p.items g) (hword : Word p.items m) (hrest : Cut p label t out) :
    Cut p label (g ++ m ++ t) (g ++ label ++ out)

theorem Shape.sub_drop (p : Shape α) (label : List α) (skip : ℕ) (t : List α) : p.sub label skip t = p.sub label 0 (t.drop skip) := by
  induction t generalizing skip with
  | nil => cases skip <;> rfl
  | cons c cs ih =>
    cases skip with
    | zero => rfl
    | succ skip =>
      rw [List.drop_succ_cons, ← ih]
      rfl

/-- no match starts in the first part of the text -/
def NoStart (p : Shape α) (g t : List α) : Prop := ∀ a b, g = a ++ b → b ≠ [] → matchLength p.items (b ++ t) = none

theorem NoStart.free {p : Shape α} {g t : List α} (h : NoStart p g t) : Free p.items g := by
  rintro w ⟨a, b, rfl⟩ hword
  refine matchLength_of_word hword (b ++ t) ?_
  rw [← List.append_assoc]
  exact h a (w ++ b) (List.append_assoc a w b) fun hnil => p.word_ne_nil hword (List.append_eq_nil_iff.1 hnil).1

theorem noStart_nil (p : Shape α) (t : List α) : NoStart p [] t := by
  intro a b hab hb
  exact absurd (List.append_eq_nil_iff.1 hab.symm).2 hb

theorem NoStart.snoc {p : Shape α} {g t : List α} {c : α} (h : NoStart p g (c :: t)) (hc : matchLength p.items (c :: t) = none) :
    NoStart p (g ++ [c]) t := by
  intro a b hab hb
  rcases List.eq_nil_or_concat b with rfl | ⟨b, c', rfl⟩
  · exact absurd rfl hb
  · rw [List.concat_eq_append] at hab ⊢
    rw [← List.append_assoc] at hab
    obtain ⟨rfl, hcc⟩ := List.append_inj' hab rfl
    obtain rfl : c = c' := List.singleton_inj.1 hcc
    rw [List.append_assoc, List.singleton_append]
    cases b with
    | nil => exact hc
    | cons d b => exact h a (d :: b) rfl (List.cons_ne_nil d b)

theorem sub_cut_from (p : Shape α) (label : List α) (n : ℕ) : ∀ g t : List α, t.length ≤ n → NoStart p g t →
    Cut p label (g ++ t) (g ++ p.sub label 0 t) := by
  induction n with
  | zero =>
    intro g t hlen hg
    obtain rfl : t = [] := List.length_eq_zero_iff.1 (Nat.le_zero.1 hlen)
    simp only [Shape.sub, List.append_nil]
    exact Cut.last hg.free
  | succ n ih =>
    intro g t hlen hg
    cases t with
    | nil =>
      simp only [Shape.sub, List.append_nil]
      exact Cut.last hg.free
    | cons c cs =>
      rw [List.length_cons] at hlen
      cases hm : matchLength p.items (c :: cs) with
      | none =>
        have h := ih (g ++ [c]) cs (by omega) (hg.snoc hm)
        simpa only [Shape.sub, hm, List.append_assoc, List.singleton_append] using h
      | some k =>
        have hword := matchLength_word hm
        -- a word has a character, which is the first one
        obtain ⟨k, rfl⟩ : ∃ j, k = j + 1 := by
          refine ⟨k - 1, ?_⟩
          have hne := p.word_ne_nil hword
          rw [Ne, List.take_eq_nil_iff] at hne
          omega
        have h := ih [] (cs.drop k) (by rw [List.length_drop]; omega) (noStart_nil p _)
        have hcut := Cut.step hg.free hword h
        simp only [List.nil_append] at hcut
        rw [List.append_assoc g, List.take_succ_cons, List.cons_append, List.take_append_drop] at hcut
        simpa only [Shape.sub, hm, Nat.add_sub_cancel, p.sub_drop label k, List.append_assoc] using hcut

theorem sub_cut (p : Shape α) (label t : List α) : Cut p label t (p.sub label 0 t) :=
  sub_cut_from p label t.length [] t le_rfl (noStart_nil p t)

/-- a label that no word reaches into, and that holds none -/
structure Sealed (is : List (Item α)) (label : List α) : Prop where
  ends : ∃ a inner b, label = a :: (inner ++ [b]) ∧ Bar is a ∧ Bar is b ∧ Free is inner

/-- between sealed labels only the gaps count -/
theorem Cut.free {p : Shape α} {label t out : List α} (h : Cut p label t out) {is : List (Item α)}
    (hgaps : ∀ g, g <:+: t → Free p.items g → Free is g) (hlabel : Sealed is label) : Free is out := by
  induction h with
  | last hgap => exact hgaps _ (List.infix_refl _) hgap
  | @step g m t out hgap _ _ ih =>
    obtain ⟨a, inner, b, rfl, ha, hb, hinner⟩ := hlabel.ends
    have hrest := ih fun g' hg' => hgaps g' (hg'.trans (List.suffix_append (g ++ m) t).isInfix)
    have hfirst := hgaps g ⟨[], m ++ t, by rw [List.nil_append, List.append_assoc]⟩ hgap
    rw [List.append_assoc, List.cons_append, List.append_assoc, free_append_cons ha, List.singleton_append, free_append_cons hb]
    exact ⟨hfirst, hinner, hrest⟩

/-- **Replaced.** No word is left, where the label is sealed. -/
theorem sub_free {p : Shape α} {label : List α} (hlabel : Sealed p.items label) (t : List α) :
    Free p.items (p.sub label 0 t) :=
  (sub_cut p label t).free (fun _ _ h => h) hlabel

/-- a label that is sealed for other items brings none of their words -/
theorem sub_keeps_free {p : Shape α} {label : List α} {is : List (Item α)} (hlabel : Sealed is label) {t : List α}
    (h : Free is t) : Free is (p.sub label 0 t) :=
  (sub_cut p label t).free (fun _ hg _ => h.part hg) hlabel

theorem sub_of_free {p : Shape α} {label t : List α} (h : Free p.items t) : p.sub label 0 t = t := by
  have hcut := sub_cut p label t
  generalize p.sub label 0 t = out at hcut
  cases hcut with
  | last => rfl
  | @step g m t out _ hword _ => exact absurd hword (h m ⟨g, t, rfl⟩)

/-! ## Several patterns in turn -/

/-- the patterns in turn, each with its label -/
def subAll (ps : List (Shape α × List α)) (t : List α) : List α := ps.foldl (fun t p => p.1.sub p.2 0 t) t

/-- no word of any of the patterns -/
def AllFree (ps : List (Shape α × List α)) (t : List α) : Prop := ∀ p ∈ ps, Free p.1.items t

instance (ps : List (Shape α × List α)) (t : List α) : Decidable (AllFree ps t) := by unfold AllFree; infer_instance

theorem subAll_keeps_free {ps : List (Shape α × List α)} {is : List (Item α)} (hlabels : ∀ p ∈ ps, Sealed is p.2) {t : List α}
    (h : Free is t) : Free is (subAll ps t) := by
  induction ps generalizing t with
  | nil => exact h
  | cons p ps ih =>
    exact ih (fun q hq => hlabels q (List.mem_cons_of_mem p hq)) (sub_keeps_free (hlabels p List.mem_cons_self) h)

/-- **In turn.** No word of any pattern is left, where every label is sealed for every pattern. -/
theorem subAll_free {ps : List (Shape α × List α)} (hlabels : ∀ p ∈ ps, ∀ q ∈ ps, Sealed p.1.items q.2) (t : List α) :
    AllFree ps (subAll ps t) := by
  induction ps generalizing t with
  | nil => nofun
  | cons p ps ih =>
    intro q hq
    rcases List.mem_cons.1 hq with rfl | hq
    · exact subAll_keeps_free (fun r hr => hlabels q List.mem_cons_self r (List.mem_cons_of_mem q hr))
        (sub_free (hlabels q List.mem_cons_self q List.mem_cons_self) t)
    · exact ih (fun r hr r' hr' => hlabels r (List.mem_cons_of_mem p hr) r' (List.mem_cons_of_mem p hr')) _ q hq

theorem subAll_of_free {ps : List (Shape α × List α)} {t : List α} (h : AllFree ps t) : subAll ps t = t := by
  induction ps with
  | nil => rfl
  | cons p ps ih =>
    unfold subAll
    rw [List.foldl_cons, sub_of_free (h p List.mem_cons_self)]
    exact ih fun q hq => h q (List.mem_cons_of_mem p hq)

end Pattern
