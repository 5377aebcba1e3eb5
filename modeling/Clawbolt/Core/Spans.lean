/-
Where the matches of a pattern are in a text, and what is hidden when the matches of several patterns are replaced in turn.

- `matchLength_of_append`: a match that ends in the first part of a text is found in that part alone;
- `spans_append`: in a text that is cut where no match is, the matches are those of the two parts;
- `subAll_hides`: patterns in turn hide all that any of them matches, when a match of a later pattern is apart from each match
  of an earlier one, or inside of it;
- `spans_comap`, `subAll_comap`: characters may carry what no pattern looks at.
-/
import Mathlib.Tactic
import Clawbolt.Core.Pattern

namespace Pattern

variable {α β : Type}

/-! ## A match in a part of a text -/

/-- the first success -/
theorem backtrack_eq_some_iff {rest : ℕ → Option ℕ} {least extra r : ℕ} : backtrack rest least extra = some r ↔
    ∃ n m, least ≤ n ∧ n ≤ least + extra ∧ rest n = some m ∧ r = n + m ∧
      ∀ k, n < k → k ≤ least + extra → rest k = none := by
  induction extra with
  | zero =>
    rw [backtrack, Option.map_eq_some_iff]
    constructor
    · rintro ⟨m, hm, rfl⟩
      exact ⟨least, m, le_rfl, le_rfl, hm, rfl, fun k hk hle => by omega⟩
    · rintro ⟨n, m, hn, hle, hm, rfl, -⟩
      obtain rfl : n = least := by omega
      exact ⟨m, hm, rfl⟩
  | succ extra ih =>
    rw [backtrack, Option.or_eq_some_iff, ih, Option.map_eq_some_iff, Option.map_eq_none_iff]
    constructor
    · rintro (⟨m, hm, rfl⟩ | ⟨hnone, n, m, hn, hle, hm, rfl, hlater⟩)
      · exact ⟨_, m, by omega, le_rfl, hm, rfl, fun k hk hle => by omega⟩
      · refine ⟨n, m, hn, by omega, hm, rfl, fun k hk hle' => ?_⟩
        rcases Nat.lt_or_ge k (least + extra + 1) with hlt | hge
        · exact hlater k hk (by omega)
        · obtain rfl : k = least + extra + 1 := by omega
          exact hnone
    · rintro ⟨n, m, hn, hle, hm, rfl, hlater⟩
      rcases Nat.lt_or_ge n (least + extra + 1) with hlt | hge
      · exact Or.inr ⟨hlater _ hlt (by omega), n, m, hn, by omega, hm, rfl, fun k hk hle' => hlater k hk (by omega)⟩
      · obtain rfl : n = least + extra + 1 := by omega
        exact Or.inl ⟨m, hm, rfl⟩

theorem run_le_length (i : Item α) (t : List α) : i.run t ≤ t.length :=
  (run_le i t).trans (List.takeWhile_prefix _).length_le

theorem matchLength_le {is : List (Item α)} {t : List α} {n : ℕ} (h : matchLength is t = some n) : n ≤ t.length := by
  induction is generalizing t n with
  | nil =>
    obtain rfl : 0 = n := Option.some.inj h
    exact Nat.zero_le _
  | cons i is ih =>
    unfold matchLength at h
    split_ifs at h with hshort
    obtain ⟨k, m, hk, hle, hm, rfl⟩ := backtrack_eq_some h
    have hrest := ih hm
    have hrun := run_le_length i t
    rw [List.length_drop] at hrest
    omega

/-- no match is found in the first part of a text without one -/
theorem matchLength_none_of_append {is : List (Item α)} {x y : List α} (h : matchLength is (x ++ y) = none) :
    matchLength is x = none := by
  by_contra hsome
  obtain ⟨n, hn⟩ := Option.ne_none_iff_exists'.1 hsome
  refine matchLength_of_word (matchLength_word hn) (x.drop n ++ y) ?_
  rw [← List.append_assoc, List.take_append_drop]
  exact h

theorem le_run_of_append (i : Item α) {x y : List α} {k : ℕ} (hk : k ≤ i.run (x ++ y)) (hx : k ≤ x.length) :
    k ≤ i.run x := by
  have hset := set_of_mem_take_run i (x ++ y) hk
  rw [List.take_append_of_le_length hx] at hset
  have hle := le_run i (u := x.take k) (t := x.drop k) hset fun m hm => by
    rw [List.length_take]
    exact (min_le_left _ _).trans (hk.trans (run_le_most i _ hm))
  rwa [List.take_append_drop, List.length_take, min_eq_left hx] at hle

theorem run_le_append (i : Item α) (x y : List α) : i.run x ≤ i.run (x ++ y) := by
  have hx := run_le_length i x
  have hle := le_run i (u := x.take (i.run x)) (t := x.drop (i.run x) ++ y) (set_of_mem_take_run i x le_rfl) fun m hm => by
    rw [List.length_take]
    exact (min_le_left _ _).trans (run_le_most i x hm)
  rwa [← List.append_assoc, List.take_append_drop, List.length_take, min_eq_left hx] at hle

/-- **A match in the first part.** It is found there alone too. -/
theorem matchLength_of_append {is : List (Item α)} {x y : List α} {n : ℕ} (h : matchLength is (x ++ y) = some n)
    (hn : n ≤ x.length) : matchLength is x = some n := by
  induction is generalizing x n with
  | nil => exact h
  | cons i is ih =>
    unfold matchLength at h ⊢
    split_ifs at h with hshort
    obtain ⟨k, m, hk, hle, hm, rfl, hlater⟩ := backtrack_eq_some_iff.1 h
    have hkx : k ≤ x.length := by omega
    have hrun : k ≤ i.run x := le_run_of_append i (y := y) (by omega) hkx
    rw [if_neg (by omega)]
    rw [List.drop_append_of_le_length hkx] at hm
    refine backtrack_eq_some_iff.2 ⟨k, m, hk, by omega, ih hm (by rw [List.length_drop]; omega), rfl, ?_⟩
    intro j hj hjle
    have hmono := run_le_append i x y
    have hjx := run_le_length i x
    have hnone := hlater j hj (by omega)
    rw [List.drop_append_of_le_length (by omega)] at hnone
    exact matchLength_none_of_append hnone

/-! ## All matches -/

/-- the matches that `finditer` finds, each by its start and its length; the first `skip` characters are the rest of one -/
def Shape.spansFrom (p : Shape α) : ℕ → ℕ → List α → List (ℕ × ℕ)
  | _, _, [] => []
  | skip + 1, pos, _ :: cs => p.spansFrom skip (pos + 1) cs
  | 0, pos, c :: cs =>
    match matchLength p.items (c :: cs) with
    | some n => (pos, n) :: p.spansFrom (n - 1) (pos + 1) cs
    | none => p.spansFrom 0 (pos + 1) cs

def Shape.spans (p : Shape α) (t : List α) : List (ℕ × ℕ) := p.spansFrom 0 0 t

/-- a place is in a match -/
def Shape.Hit (p : Shape α) (t : List α) (k : ℕ) : Prop := ∃ s ∈ p.spans t, s.1 ≤ k ∧ k < s.1 + s.2

/-- no match of `q` is cut where a match of `p` starts or ends, unless it is inside of it -/
def Apart (p q : Shape α) (t : List α) : Prop :=
  ∀ s ∈ p.spans t, ∀ r ∈ q.spans t, r.1 + r.2 ≤ s.1 ∨ s.1 + s.2 ≤ r.1 ∨ (s.1 ≤ r.1 ∧ r.1 + r.2 ≤ s.1 + s.2)

/-- no match goes through the place between two parts -/
def NoCross (p : Shape α) (x y : List α) : Prop := ∀ s ∈ p.spans (x ++ y), s.1 + s.2 ≤ x.length ∨ x.length ≤ s.1

def shift (d : ℕ) (s : ℕ × ℕ) : ℕ × ℕ := (s.1 + d, s.2)

variable (p : Shape α)

theorem spansFrom_shift (d skip pos : ℕ) (t : List α) :
    p.spansFrom skip (pos + d) t = (p.spansFrom skip pos t).map (shift d) := by
  induction t generalizing skip pos with
  | nil => simp [Shape.spansFrom]
  | cons c cs ih =>
    have hpos : pos + d + 1 = pos + 1 + d := Nat.add_right_comm pos d 1
    cases skip with
    | succ skip => rw [Shape.spansFrom, Shape.spansFrom, hpos, ih]
    | zero =>
      rw [Shape.spansFrom, Shape.spansFrom, hpos]
      cases matchLength p.items (c :: cs) with
      | none => exact ih 0 (pos + 1)
      | some n =>
        simp only [List.map_cons, ih]
        rfl

theorem spansFrom_drop (skip pos : ℕ) (t : List α) : p.spansFrom skip pos t = p.spansFrom 0 (pos + skip) (t.drop skip) := by
  induction t generalizing skip pos with
  | nil => simp [Shape.spansFrom]
  | cons c cs ih =>
    cases skip with
    | zero => rfl
    | succ skip => rw [Shape.spansFrom, ih, List.drop_succ_cons, Nat.add_right_comm, Nat.add_assoc]

theorem match_pos {c : α} {cs : List α} {n : ℕ} (h : matchLength p.items (c :: cs) = some n) : 0 < n := by
  have hne := p.word_ne_nil (matchLength_word h)
  rw [Ne, List.take_eq_nil_iff] at hne
  omega

/-- where the matches are -/
theorem spansFrom_bounds {skip pos : ℕ} {t : List α} {s : ℕ × ℕ} (h : s ∈ p.spansFrom skip pos t) :
    pos + skip ≤ s.1 ∧ s.1 + s.2 ≤ pos + t.length ∧ 0 < s.2 := by
  induction t generalizing skip pos with
  | nil => simp [Shape.spansFrom] at h
  | cons c cs ih =>
    rw [List.length_cons]
    cases skip with
    | succ skip =>
      obtain ⟨hstart, hend, hpos⟩ := ih h
      exact ⟨by omega, by omega, hpos⟩
    | zero =>
      rw [Shape.spansFrom] at h
      cases hmatch : matchLength p.items (c :: cs) with
      | none =>
        rw [hmatch] at h
        obtain ⟨hstart, hend, hpos⟩ := ih h
        exact ⟨by omega, by omega, hpos⟩
      | some n =>
        have hn := matchLength_le hmatch
        rw [List.length_cons] at hn
        simp only [hmatch] at h
        rcases List.mem_cons.1 h with rfl | h
        · exact ⟨le_rfl, by simp only; omega, match_pos p hmatch⟩
        · obtain ⟨hstart, hend, hpos⟩ := ih h
          exact ⟨by omega, by omega, hpos⟩

/-- what is matched is a word -/
theorem spansFrom_word {skip pos : ℕ} {t : List α} {s : ℕ × ℕ} (h : s ∈ p.spansFrom skip pos t) :
    Word p.items ((t.drop (s.1 - pos)).take s.2) := by
  induction t generalizing skip pos with
  | nil => simp [Shape.spansFrom] at h
  | cons c cs ih =>
    have hlater : ∀ skip, s ∈ p.spansFrom skip (pos + 1) cs → Word p.items (((c :: cs).drop (s.1 - pos)).take s.2) := by
      intro skip hs
      have hword := ih hs
      have hstart := (spansFrom_bounds p hs).1
      have hdrop : s.1 - pos = s.1 - (pos + 1) + 1 := by omega
      rw [hdrop, List.drop_succ_cons]
      exact hword
    cases skip with
    | succ skip => exact hlater skip h
    | zero =>
      rw [Shape.spansFrom] at h
      cases hmatch : matchLength p.items (c :: cs) with
      | none =>
        rw [hmatch] at h
        exact hlater 0 h
      | some n =>
        simp only [hmatch] at h
        rcases List.mem_cons.1 h with rfl | h
        · rw [Nat.sub_self, List.drop_zero]
          exact matchLength_word hmatch
        · exact hlater _ h

/-- a text without a word has no match -/
theorem spans_of_free {t : List α} (h : Free p.items t) : p.spans t = [] := by
  refine List.eq_nil_iff_forall_not_mem.2 fun s hs => ?_
  refine h _ ?_ (spansFrom_word p hs)
  exact (List.take_prefix _ _).isInfix.trans (List.drop_suffix _ _).isInfix

/-! ## A text in two parts -/

variable {p}

theorem spansFrom_append {skip pos : ℕ} {x y : List α} (hskip : skip ≤ x.length)
    (h : ∀ s ∈ p.spansFrom skip pos (x ++ y), s.1 + s.2 ≤ pos + x.length ∨ pos + x.length ≤ s.1) :
    p.spansFrom skip pos (x ++ y) = p.spansFrom skip pos x ++ p.spansFrom 0 (pos + x.length) y := by
  induction x generalizing skip pos with
  | nil =>
    obtain rfl : skip = 0 := Nat.le_zero.1 hskip
    rfl
  | cons c x ih =>
    rw [List.length_cons] at hskip h
    have hpos : pos + (c :: x).length = pos + 1 + x.length := by
      rw [List.length_cons]
      omega
    have hpos' : pos + (x.length + 1) = pos + 1 + x.length := by omega
    rw [hpos'] at h
    rw [List.cons_append] at h ⊢
    cases skip with
    | succ skip =>
      rw [Shape.spansFrom] at h ⊢
      rw [Shape.spansFrom, hpos]
      exact ih (by omega) h
    | zero =>
      rw [Shape.spansFrom] at h ⊢
      rw [Shape.spansFrom, hpos]
      cases hmatch : matchLength p.items (c :: (x ++ y)) with
      | none =>
        rw [hmatch] at h
        rw [matchLength_none_of_append (x := c :: x) hmatch]
        exact ih (Nat.zero_le _) h
      | some n =>
        simp only [hmatch] at h
        obtain ⟨hfirst, hrest⟩ := List.forall_mem_cons.1 h
        have hn : n ≤ x.length + 1 := by
          simp only at hfirst
          omega
        rw [matchLength_of_append (x := c :: x) hmatch (by rw [List.length_cons]; exact hn)]
        have hpos := match_pos p hmatch
        simp only [ih (by omega) hrest, List.cons_append]

/-- **Two parts.** Where no match goes from one part to the other, the matches are those of each part. -/
theorem spans_append {x y : List α} (h : NoCross p x y) : p.spans (x ++ y) = p.spans x ++ (p.spans y).map (shift x.length) := by
  have hzero : ∀ s ∈ p.spansFrom 0 0 (x ++ y), s.1 + s.2 ≤ 0 + x.length ∨ 0 + x.length ≤ s.1 := by
    rw [Nat.zero_add]
    exact h
  have happend := spansFrom_append (Nat.zero_le _) hzero
  rw [spansFrom_shift p x.length 0 0 y] at happend
  exact happend

theorem spans_bounds {t : List α} {s : ℕ × ℕ} (h : s ∈ p.spans t) : s.1 + s.2 ≤ t.length ∧ 0 < s.2 := by
  obtain ⟨-, hend, hpos⟩ := spansFrom_bounds p h
  rw [Nat.zero_add] at hend
  exact ⟨hend, hpos⟩

theorem hit_left {x y : List α} (h : NoCross p x y) {k : ℕ} (hk : k < x.length) : p.Hit (x ++ y) k ↔ p.Hit x k := by
  rw [Shape.Hit, Shape.Hit, spans_append h]
  constructor
  · rintro ⟨s, hs, hle, hlt⟩
    rcases List.mem_append.1 hs with hs | hs
    · exact ⟨s, hs, hle, hlt⟩
    · obtain ⟨r, -, rfl⟩ := List.mem_map.1 hs
      simp only [shift] at hle
      omega
  · rintro ⟨s, hs, hle, hlt⟩
    exact ⟨s, List.mem_append_left _ hs, hle, hlt⟩

theorem hit_right {x y : List α} (h : NoCross p x y) {k : ℕ} : p.Hit (x ++ y) (x.length + k) ↔ p.Hit y k := by
  rw [Shape.Hit, Shape.Hit, spans_append h]
  constructor
  · rintro ⟨s, hs, hle, hlt⟩
    rcases List.mem_append.1 hs with hs | hs
    · have := (spans_bounds hs).1
      omega
    · obtain ⟨r, hr, rfl⟩ := List.mem_map.1 hs
      simp only [shift] at hle hlt
      exact ⟨r, hr, by omega, by omega⟩
  · rintro ⟨s, hs, hle, hlt⟩
    refine ⟨shift x.length s, List.mem_append_right _ (List.mem_map_of_mem hs), ?_, ?_⟩
    · simp only [shift]
      omega
    · simp only [shift]
      omega

/-- matches of two patterns are apart in a text when they are so in both parts -/
theorem apart_append {q : Shape α} {x y : List α} (hp : NoCross p x y) (hq : NoCross q x y) :
    Apart p q (x ++ y) ↔ Apart p q x ∧ Apart p q y := by
  rw [Apart, Apart, Apart, spans_append hp, spans_append hq]
  constructor
  · intro h
    refine ⟨fun s hs r hr => h s (List.mem_append_left _ hs) r (List.mem_append_left _ hr), fun s hs r hr => ?_⟩
    have hshift := h _ (List.mem_append_right _ (List.mem_map_of_mem hs)) _ (List.mem_append_right _ (List.mem_map_of_mem hr))
    simp only [shift] at hshift
    omega
  · rintro ⟨hx, hy⟩ s hs r hr
    rcases List.mem_append.1 hs with hs | hs <;> rcases List.mem_append.1 hr with hr | hr
    · exact hx s hs r hr
    · obtain ⟨r', -, rfl⟩ := List.mem_map.1 hr
      have := (spans_bounds hs).1
      simp only [shift]
      omega
    · obtain ⟨s', -, rfl⟩ := List.mem_map.1 hs
      have := (spans_bounds hr).1
      simp only [shift]
      omega
    · obtain ⟨s', hs', rfl⟩ := List.mem_map.1 hs
      obtain ⟨r', hr', rfl⟩ := List.mem_map.1 hr
      have := hy s' hs' r' hr'
      simp only [shift]
      omega

/-! ## Labels -/

/-- no match holds a character that no item takes -/
theorem spans_bar {x y : List α} {b : α} (hb : Bar p.items b) {s : ℕ × ℕ} (hs : s ∈ p.spans (x ++ b :: y)) :
    s.1 + s.2 ≤ x.length ∨ x.length < s.1 := by
  by_contra hnot
  rw [not_or, not_le, not_lt] at hnot
  obtain ⟨hend, hstart⟩ := hnot
  refine (spansFrom_word p hs).not_mem hb ?_
  rw [Nat.sub_zero, List.drop_append_of_le_length hstart, List.take_append]
  refine List.mem_append_right _ ?_
  rw [List.length_drop]
  obtain ⟨n, hn⟩ : ∃ n, s.2 - (x.length - s.1) = n + 1 := ⟨s.2 - (x.length - s.1) - 1, by omega⟩
  rw [hn, List.take_succ_cons]
  exact List.mem_cons_self

theorem noCross_bar_left {x y : List α} {b : α} (hb : Bar p.items b) : NoCross p x (b :: y) := by
  intro s hs
  exact (spans_bar hb hs).imp_right le_of_lt

theorem noCross_bar_right {x y : List α} {b : α} (hb : Bar p.items b) : NoCross p (x ++ [b]) y := by
  intro s hs
  rw [List.append_assoc, List.singleton_append] at hs
  rw [List.length_append, List.length_singleton]
  have := spans_bar hb hs
  omega

theorem Sealed.free {is : List (Item α)} {label : List α} (h : Sealed is label) : Free is label := by
  obtain ⟨a, inner, b, rfl, ha, hb, hfree⟩ := h.ends
  rw [← List.nil_append (a :: (inner ++ [b])), free_append_cons ha, free_append_cons hb]
  have hnil : Free is ([] : List α) := hfree.part List.nil_infix
  exact ⟨hnil, hfree, hnil⟩

theorem noCross_label_left {x label y : List α} (h : Sealed p.items label) : NoCross p x (label ++ y) := by
  obtain ⟨a, inner, b, rfl, ha, -, -⟩ := h.ends
  exact noCross_bar_left ha

theorem noCross_label_right {x label y : List α} (h : Sealed p.items label) : NoCross p (x ++ label) y := by
  obtain ⟨a, inner, b, rfl, -, hb, -⟩ := h.ends
  rw [← List.cons_append, ← List.append_assoc]
  exact noCross_bar_right hb

/-! ## Replacing the matches -/

/-- there is no match, or a first one, and the rest is replaced as a text of its own -/
theorem spans_cases (label t : List α) : (p.spans t = [] ∧ p.sub label 0 t = t) ∨
    ∃ g m t', t = g ++ m ++ t' ∧ p.spans t = (g.length, m.length) :: (p.spans t').map (shift (g.length + m.length)) ∧
      p.sub label 0 t = g ++ label ++ p.sub label 0 t' ∧ m ≠ [] := by
  induction t with
  | nil => exact Or.inl ⟨rfl, rfl⟩
  | cons c cs ih =>
    rw [Shape.spans, Shape.spansFrom, Shape.sub]
    cases hmatch : matchLength p.items (c :: cs) with
    | some n =>
      have hn := matchLength_le hmatch
      have hpos := match_pos p hmatch
      have hlength : ((c :: cs).take n).length = n := by
        rw [List.length_take, min_eq_left hn]
      have hdrop : cs.drop (n - 1) = (c :: cs).drop n := by
        obtain ⟨n, rfl⟩ : ∃ m, n = m + 1 := ⟨n - 1, by omega⟩
        rw [Nat.add_sub_cancel, List.drop_succ_cons]
      refine Or.inr ⟨[], (c :: cs).take n, (c :: cs).drop n, ?_, ?_, ?_, ?_⟩
      · rw [List.nil_append, List.take_append_drop]
      · have hrest : p.spansFrom (n - 1) (0 + 1) cs = (p.spans ((c :: cs).drop n)).map (shift n) := by
          have hstart : 0 + 1 + (n - 1) = 0 + n := by omega
          rw [spansFrom_drop, hstart, spansFrom_shift, hdrop]
          rfl
        simp only [hlength, hrest, List.length_nil, Nat.zero_add]
      · simp only [p.sub_drop label (n - 1), hdrop, List.nil_append]
      · exact List.ne_nil_of_length_pos (by omega)
    | none =>
      have hshift : p.spansFrom 0 (0 + 1) cs = (p.spans cs).map (shift 1) := spansFrom_shift p 1 0 0 cs
      simp only [hshift]
      rcases ih with ⟨hspans, hsub⟩ | ⟨g, m, t', rfl, hspans, hsub, hne⟩
      · exact Or.inl ⟨by rw [hspans]; rfl, by rw [hsub]⟩
      · refine Or.inr ⟨c :: g, m, t', rfl, ?_, by rw [hsub]; rfl, hne⟩
        rw [hspans, List.map_cons, List.map_map]
        congr 1
        refine List.map_congr_left fun s _ => ?_
        rw [Function.comp_apply, shift, shift, shift, List.length_cons, Prod.mk.injEq]
        exact ⟨by omega, rfl⟩

/-- what is marked is in a match of one of the patterns, and no match of one of them cuts a match of one before it -/
structure Covered (ps : List (Shape α)) (mark : α → Bool) (t : List α) : Prop where
  hit : ∀ k c, t[k]? = some c → mark c = true → ∃ p ∈ ps, p.Hit t k
  apart : ps.Pairwise fun p q => Apart p q t

theorem covered_append {ps : List (Shape α)} {mark : α → Bool} {x y : List α} (h : ∀ p ∈ ps, NoCross p x y) :
    Covered ps mark (x ++ y) ↔ Covered ps mark x ∧ Covered ps mark y := by
  constructor
  · rintro ⟨hhit, hapart⟩
    refine ⟨⟨?_, ?_⟩, ⟨?_, ?_⟩⟩
    · intro k c hk hmark
      obtain ⟨hlt, -⟩ := List.getElem?_eq_some_iff.1 hk
      obtain ⟨p, hp, hpk⟩ := hhit k c (by rw [List.getElem?_append_left hlt, hk]) hmark
      exact ⟨p, hp, (hit_left (h p hp) hlt).1 hpk⟩
    · exact hapart.imp_of_mem fun {p q} hp hq hpq => ((apart_append (h p hp) (h q hq)).1 hpq).1
    · intro k c hk hmark
      obtain ⟨p, hp, hpk⟩ := hhit (x.length + k) c (by
        rw [List.getElem?_append_right (Nat.le_add_right _ _), Nat.add_sub_cancel_left, hk]) hmark
      exact ⟨p, hp, (hit_right (h p hp)).1 hpk⟩
    · exact hapart.imp_of_mem fun {p q} hp hq hpq => ((apart_append (h p hp) (h q hq)).1 hpq).2
  · rintro ⟨hx, hy⟩
    refine ⟨?_, ?_⟩
    · intro k c hk hmark
      rcases Nat.lt_or_ge k x.length with hlt | hge
      · rw [List.getElem?_append_left hlt] at hk
        obtain ⟨p, hp, hpk⟩ := hx.hit k c hk hmark
        exact ⟨p, hp, (hit_left (h p hp) hlt).2 hpk⟩
      · obtain ⟨j, rfl⟩ := Nat.exists_eq_add_of_le hge
        rw [List.getElem?_append_right hge, Nat.add_sub_cancel_left] at hk
        obtain ⟨p, hp, hpk⟩ := hy.hit j c hk hmark
        exact ⟨p, hp, (hit_right (h p hp)).2 hpk⟩
    · refine (hx.apart.and hy.apart).imp_of_mem fun {p q} hp hq hpq => ?_
      exact (apart_append (h p hp) (h q hq)).2 hpq

/-- a pattern without a match covers nothing -/
theorem Covered.tail {ps : List (Shape α)} {mark : α → Bool} {t : List α} (h : Covered (p :: ps) mark t)
    (hspans : p.spans t = []) : Covered ps mark t := by
  refine ⟨?_, (List.pairwise_cons.1 h.apart).2⟩
  intro k c hk hmark
  obtain ⟨q, hq, s, hs, hle⟩ := h.hit k c hk hmark
  rcases List.mem_cons.1 hq with rfl | hq
  · rw [hspans] at hs
    cases hs
  · exact ⟨q, hq, s, hs, hle⟩

/-- an unmarked label is covered -/
theorem covered_label {ps : List (Shape α)} {mark : α → Bool} {label : List α} (hsealed : ∀ p ∈ ps, Sealed p.items label)
    (hmark : ∀ c ∈ label, mark c = false) : Covered ps mark label := by
  refine ⟨?_, ?_⟩
  · intro k c hk hc
    rw [hmark c (List.mem_of_getElem? hk)] at hc
    cases hc
  · refine List.pairwise_iff_forall_sublist.2 fun {p q} hpq s hs => ?_
    have hp : p ∈ ps := hpq.subset List.mem_cons_self
    rw [spans_of_free p (hsealed p hp).free] at hs
    cases hs

/-- **One pattern replaced.** The rest of the patterns cover what is left. -/
theorem Covered.sub {ps : List (Shape α)} {mark : α → Bool} {label : List α} (hsealed : ∀ q ∈ ps, Sealed q.items label)
    (hmark : ∀ c ∈ label, mark c = false) {t : List α} (h : Covered (p :: ps) mark t) : Covered ps mark (p.sub label 0 t) := by
  induction hlen : t.length using Nat.strong_induction_on generalizing t with
  | _ n ih =>
    rcases spans_cases label t with ⟨hspans, hsub⟩ | ⟨g, m, t', rfl, hspans, hsub, hne⟩
    · rw [hsub]
      exact h.tail hspans
    · have hpos := List.length_pos_of_ne_nil hne
      -- no match goes over the start or the end of the first match
      have hfirst : ∀ q ∈ p :: ps, NoCross q g (m ++ t') ∧ NoCross q (g ++ m) t' := by
        intro q hq
        rw [NoCross, NoCross, ← List.append_assoc, List.length_append]
        rcases List.mem_cons.1 hq with rfl | hq
        · rw [hspans]
          refine ⟨?_, ?_⟩ <;> intro s hs
          · rcases List.mem_cons.1 hs with rfl | hs
            · exact Or.inr le_rfl
            · obtain ⟨r, -, rfl⟩ := List.mem_map.1 hs
              simp only [shift]
              omega
          · rcases List.mem_cons.1 hs with rfl | hs
            · exact Or.inl le_rfl
            · obtain ⟨r, -, rfl⟩ := List.mem_map.1 hs
              simp only [shift]
              omega
        · have hq' := (List.pairwise_cons.1 h.apart).1 q hq (g.length, m.length) (by rw [hspans]; exact List.mem_cons_self)
          simp only at hq'
          refine ⟨?_, ?_⟩ <;> intro s hs
          · have := hq' s hs
            omega
          · have := hq' s hs
            omega
      have hrest : Covered (p :: ps) mark t' := ((covered_append fun q hq => (hfirst q hq).2).1 h).2
      rw [List.append_assoc] at h hspans
      have hgap : Covered (p :: ps) mark g := ((covered_append fun q hq => (hfirst q hq).1).1 h).1
      have hnone : p.spans g = [] := by
        refine List.eq_nil_iff_forall_not_mem.2 fun s hs => ?_
        have hmem : s ∈ p.spans (g ++ (m ++ t')) := by
          rw [spans_append (hfirst p List.mem_cons_self).1]
          exact List.mem_append_left _ hs
        have hbounds := spans_bounds hs
        rw [hspans] at hmem
        rcases List.mem_cons.1 hmem with rfl | hmem
        · simp only at hbounds
          omega
        · obtain ⟨r, -, rfl⟩ := List.mem_map.1 hmem
          simp only [shift] at hbounds
          omega
      have hlater : Covered ps mark (p.sub label 0 t') := by
        refine ih t'.length ?_ hrest rfl
        simp only [List.length_append] at hlen
        omega
      rw [hsub, covered_append fun q hq => noCross_label_right (hsealed q hq)]
      refine ⟨?_, hlater⟩
      rw [← List.append_nil label, covered_append fun q hq => noCross_label_left (hsealed q hq), List.append_nil]
      exact ⟨hgap.tail hnone, covered_label hsealed hmark⟩

/-- **In turn.** Nothing that is marked is left. -/
theorem subAll_hides {ps : List (Shape α × List α)} {mark : α → Bool} (hsealed : ∀ p ∈ ps, ∀ q ∈ ps, Sealed p.1.items q.2)
    (hmark : ∀ p ∈ ps, ∀ c ∈ p.2, mark c = false) {t : List α} (h : Covered (ps.map Prod.fst) mark t) :
    ∀ c ∈ subAll ps t, mark c = false := by
  induction ps generalizing t with
  | nil =>
    intro c hc
    obtain ⟨k, hk⟩ := List.mem_iff_getElem?.1 hc
    by_contra hmarked
    obtain ⟨p, hp, -⟩ := h.hit k c hk (Bool.not_eq_false _ ▸ hmarked)
    cases hp
  | cons p ps ih =>
    refine ih (fun q hq r hr => hsealed q (List.mem_cons_of_mem p hq) r (List.mem_cons_of_mem p hr))
      (fun q hq => hmark q (List.mem_cons_of_mem p hq)) (h.sub ?_ (hmark p List.mem_cons_self))
    intro q hq
    obtain ⟨r, hr, rfl⟩ := List.mem_map.1 hq
    exact hsealed r (List.mem_cons_of_mem p hr) p List.mem_cons_self

/-! ## Characters that carry more -/

/-- the item on what `f` makes of a character -/
def Item.comap (f : β → α) (i : Item α) : Item β := ⟨fun b => i.set (f b), i.least, i.most⟩

theorem matchLength_comap (f : β → α) (is : List (Item α)) (t : List β) :
    matchLength (is.map (Item.comap f)) t = matchLength is (t.map f) := by
  induction is generalizing t with
  | nil => rfl
  | cons i is ih =>
    have hrun : (i.comap f).run t = i.run (t.map f) := by
      simp only [Item.run, Item.comap, List.takeWhile_map, List.length_map]
      rfl
    have hrest : (fun n => matchLength (is.map (Item.comap f)) (t.drop n)) = fun n => matchLength is ((t.map f).drop n) := by
      funext n
      rw [ih, List.map_drop]
    rw [List.map_cons, matchLength, matchLength, hrun, hrest]
    rfl

def Shape.comap (f : β → α) (p : Shape α) : Shape β where
  items := p.items.map (Item.comap f)
  positive := by
    obtain ⟨i, hi, hleast⟩ := p.positive
    exact ⟨i.comap f, List.mem_map_of_mem hi, hleast⟩

theorem spansFrom_comap (f : β → α) (p : Shape α) (skip pos : ℕ) (t : List β) :
    (p.comap f).spansFrom skip pos t = p.spansFrom skip pos (t.map f) := by
  induction t generalizing skip pos with
  | nil => simp [Shape.spansFrom]
  | cons c cs ih =>
    cases skip with
    | succ skip => exact ih skip (pos + 1)
    | zero =>
      have hmatch : matchLength (p.comap f).items (c :: cs) = matchLength p.items (f c :: cs.map f) :=
        matchLength_comap f p.items (c :: cs)
      rw [List.map_cons, Shape.spansFrom, Shape.spansFrom, hmatch]
      simp only [ih]

theorem spans_comap (f : β → α) (p : Shape α) (t : List β) : (p.comap f).spans t = p.spans (t.map f) :=
  spansFrom_comap f p 0 0 t

theorem sub_comap (f : β → α) (p : Shape α) (label : List β) (skip : ℕ) (t : List β) :
    ((p.comap f).sub label skip t).map f = p.sub (label.map f) skip (t.map f) := by
  induction t generalizing skip with
  | nil => simp [Shape.sub]
  | cons c cs ih =>
    cases skip with
    | succ skip => exact ih skip
    | zero =>
      have hmatch : matchLength (p.comap f).items (c :: cs) = matchLength p.items (f c :: cs.map f) :=
        matchLength_comap f p.items (c :: cs)
      rw [List.map_cons, Shape.sub, Shape.sub, hmatch]
      cases matchLength p.items (f c :: cs.map f) with
      | none => exact congrArg (f c :: ·) (ih 0)
      | some n => simp only [List.map_append, ih]

theorem subAll_comap (f : β → α) (ps : List (Shape α × List β)) (t : List β) :
    (subAll (ps.map fun p => (p.1.comap f, p.2)) t).map f = subAll (ps.map fun p => (p.1, p.2.map f)) (t.map f) := by
  induction ps generalizing t with
  | nil => rfl
  | cons p ps ih =>
    have hstep := ih ((p.1.comap f).sub p.2 0 t)
    rw [sub_comap] at hstep
    exact hstep

theorem free_comap (f : β → α) {is : List (Item α)} {t : List β} (h : Free is (t.map f)) : Free (is.map (Item.comap f)) t := by
  rw [free_iff_tails] at h ⊢
  intro s hs
  rw [matchLength_comap]
  exact h _ ((List.mem_tails _ _).2 (((List.mem_tails _ _).1 hs).map f))

/-- a label on characters that carry more is sealed as it was -/
theorem sealed_comap {f : β → α} {g : α → β} (hfg : ∀ a, f (g a) = a) {is : List (Item α)} {label : List α}
    (h : Sealed is label) : Sealed (is.map (Item.comap f)) (label.map g) := by
  have hbar : ∀ {a}, Bar is a → Bar (is.map (Item.comap f)) (g a) := by
    intro a ha i hi
    obtain ⟨j, hj, rfl⟩ := List.mem_map.1 hi
    exact (congrArg j.set (hfg a)).trans (ha j hj)
  obtain ⟨a, inner, b, rfl, ha, hb, hfree⟩ := h.ends
  refine ⟨g a, inner.map g, g b, by simp, hbar ha, hbar hb, free_comap f ?_⟩
  rw [List.map_map, (funext hfg : f ∘ g = id), List.map_id]
  exact hfree

end Pattern
