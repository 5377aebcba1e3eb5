/-
HISTORY.md (`append_with_window` of agent/markdown_registry.py, `append_history` of agent/memory_db.py): entries are appended
and the oldest ones leave while the text is over its budget in bytes. An entry is recognised by a line that starts with a
date. Appends are serialized by the row's lock, so a history is a list of entries.

- `window`: what an append keeps, as a longest end of the text;
- `history_newest`: of entries with one date each, in front, the newest ones that fit;
- `history_bounded`: the history after any appends.
-/
import Mathlib.Tactic
import Clawbolt.Core.Pattern
import Clawbolt.Core.Utf8
import Clawbolt.SharedData.Redaction

namespace Clawbolt.Memory.History

open Text (Str utf8Size)
open Pattern (Item Word)
open SharedData (Unicode)

variable (u : Unicode)

/-! ## The code -/

/-- `_ENTRY_HEAD_RE`, at the start of a line -/
def entryHead : List (Item Char) :=
  [.exactly 1 (· == '['), .exactly 4 u.isDecimal, .exactly 1 (· == '-'), .exactly 2 u.isDecimal, .exactly 1 (· == '-'),
    .exactly 2 u.isDecimal]

def isHead (t : Str) : Bool := (Pattern.matchLength (entryHead u) t).isSome

/-- the text in front of the first head, and the text from each head to the next one -/
def cut : Bool → Str → Str × List Str
  | _, [] => ([], [])
  | lineStart, c :: t =>
    let (before, entries) := cut (c == '\n') t
    if lineStart && isHead u (c :: t) then ([], (c :: before) :: entries) else (c :: before, entries)

/-- `_split_history_entries` -/
def splitHistoryEntries (text : Str) : List Str :=
  if text = [] then []
  else
    let (preamble, entries) := cut u true text
    if preamble = [] then entries else preamble :: entries

/-- the loop of `append_with_window` -/
def dropOldest (budget : ℕ) : List Str → List Str
  | e :: e' :: es => if budget < utf8Size (e :: e' :: es).flatten then dropOldest budget (e' :: es) else e :: e' :: es
  | entries => entries

/-- `b[-n:]` -/
def lastBytes (n : ℕ) (b : List UInt8) : List UInt8 := if n = 0 then b else b.drop (b.length - n)

/-- a text that ends with a newline -/
def terminated (t : Str) : Str := if t.getLast? = some '\n' then t else t ++ ['\n']

def appendWithWindow (current entry : Str) (budget : ℕ) : Str :=
  let current := if current = [] then current else terminated current
  let text := current ++ terminated entry
  if utf8Size text ≤ budget then text
  else
    let rebuilt := (dropOldest budget (splitHistoryEntries u text)).flatten
    if utf8Size rebuilt ≤ budget then rebuilt
    else
      let tail := Utf8.decodeIgnore 0 (lastBytes budget (Utf8.encode rebuilt))
      if tail = [] then tail else terminated tail

/-- the column after the entries were appended to an empty one -/
def history (budget : ℕ) (entries : List Str) : Str := entries.foldl (fun t e => appendWithWindow u t e budget) []

variable {u}

/-! ## Heads -/

theorem bar_newline : Pattern.Bar (entryHead u) '\n' := by
  have hdigit : u.isDecimal '\n' = false := (u.ascii '\n' (by decide)).trans (by decide)
  intro i hi
  simp only [entryHead, List.mem_cons, List.not_mem_nil, or_false] at hi
  rcases hi with rfl | rfl | rfl | rfl | rfl | rfl
  · rfl
  · exact hdigit
  · rfl
  · exact hdigit
  · rfl
  · exact hdigit

theorem isHead_iff {t : Str} : isHead u t = true ↔ ∃ w, w <+: t ∧ Word (entryHead u) w := Pattern.matchLength_isSome_iff

theorem isHead_append {t : Str} (h : isHead u t = true) (r : Str) : isHead u (t ++ r) = true := by
  obtain ⟨w, hw, hword⟩ := isHead_iff.1 h
  exact isHead_iff.2 ⟨w, hw.trans (List.prefix_append t r), hword⟩

/-- a head does not go beyond its line -/
theorem isHead_of_append {t r : Str} (ht : t.getLast? = some '\n') (h : isHead u (t ++ r) = true) : isHead u t = true := by
  obtain ⟨w, hw, hword⟩ := isHead_iff.1 h
  refine isHead_iff.2 ⟨w, ?_, hword⟩
  rcases List.prefix_or_prefix_of_prefix hw (List.prefix_append t r) with hin | hout
  · exact hin
  · exact absurd (hout.subset (List.mem_of_getLast? ht)) (hword.not_mem bar_newline)

/-- an end of the text that starts with a head at the start of a line -/
def HeadAt (u : Unicode) (lineStart : Bool) (t s : Str) : Prop :=
  isHead u s = true ∧ ∃ a, t = a ++ s ∧ (a = [] ∧ lineStart = true ∨ a.getLast? = some '\n')

theorem isHead_nil : isHead u [] ≠ true := by
  simp [isHead, entryHead, Pattern.matchLength, Item.run, Item.exactly]

theorem not_headAt_nil {lineStart : Bool} {s : Str} : ¬ HeadAt u lineStart [] s := by
  rintro ⟨hhead, a, ha, -⟩
  obtain ⟨rfl, rfl⟩ := List.append_eq_nil_iff.1 ha.symm
  exact isHead_nil hhead

theorem headAt_cons {lineStart : Bool} {c : Char} {t s : Str} :
    HeadAt u lineStart (c :: t) s ↔ (lineStart = true ∧ isHead u s = true ∧ s = c :: t) ∨ HeadAt u (c == '\n') t s := by
  constructor
  · rintro ⟨hhead, a, ha, hline⟩
    cases a with
    | nil =>
      rcases hline with ⟨-, hstart⟩ | hlast
      · exact .inl ⟨hstart, hhead, ha.symm⟩
      · cases hlast
    | cons d a =>
      obtain ⟨rfl, rfl⟩ := List.cons_eq_cons.1 ha
      refine .inr ⟨hhead, a, rfl, ?_⟩
      rcases hline with ⟨hnil, -⟩ | hlast
      · cases hnil
      · cases a with
        | nil => exact .inl ⟨rfl, beq_iff_eq.2 (Option.some.inj hlast)⟩
        | cons d' a => exact .inr (by rwa [List.getLast?_cons_cons] at hlast)
  · rintro (⟨hstart, hhead, rfl⟩ | ⟨hhead, a, rfl, hline⟩)
    · exact ⟨hhead, [], rfl, .inl ⟨rfl, hstart⟩⟩
    · refine ⟨hhead, c :: a, rfl, .inr ?_⟩
      rcases hline with ⟨rfl, hc⟩ | hlast
      · rw [beq_iff_eq.1 hc]
        rfl
      · cases a with
        | nil => cases hlast
        | cons d a => rwa [List.getLast?_cons_cons]

/-! ## Pieces -/

theorem cut_flatten (lineStart : Bool) (t : Str) : (cut u lineStart t).1 ++ (cut u lineStart t).2.flatten = t := by
  induction t generalizing lineStart with
  | nil => rfl
  | cons c t ih =>
    have hrest := ih (c == '\n')
    rw [cut]
    split_ifs
    · exact congrArg (c :: ·) hrest
    · exact congrArg (c :: ·) hrest

/-- the heads of a text are where its pieces start -/
theorem headAt_iff_cut {lineStart : Bool} {t s : Str} : HeadAt u lineStart t s ↔
    ∃ k < (cut u lineStart t).2.length, s = ((cut u lineStart t).2.drop k).flatten := by
  induction t generalizing lineStart with
  | nil => exact ⟨fun h => absurd h not_headAt_nil, fun ⟨k, hk, _⟩ => absurd hk (Nat.not_lt_zero k)⟩
  | cons c t ih =>
    have hflatten := cut_flatten (u := u) (c == '\n') t
    rw [headAt_cons, ih, cut]
    cases hstart : lineStart && isHead u (c :: t) with
    | true =>
      obtain ⟨hline, hhead⟩ := Bool.and_eq_true_iff.1 hstart
      have hwhole : (c :: (cut u (c == '\n') t).1) ++ (cut u (c == '\n') t).2.flatten = c :: t := congrArg (c :: ·) hflatten
      simp only [if_true, List.length_cons]
      constructor
      · rintro (⟨-, -, rfl⟩ | ⟨k, hk, rfl⟩)
        · exact ⟨0, Nat.succ_pos _, hwhole.symm⟩
        · exact ⟨k + 1, Nat.succ_lt_succ hk, rfl⟩
      · rintro ⟨k, hk, rfl⟩
        cases k with
        | zero =>
          refine .inl ⟨hline, ?_, hwhole⟩
          rwa [List.drop_zero, List.flatten_cons, hwhole]
        | succ k => exact .inr ⟨k, Nat.lt_of_succ_lt_succ hk, rfl⟩
    | false =>
      simp only [Bool.false_eq_true, if_false]
      refine or_iff_right ?_
      rintro ⟨hline, hhead, rfl⟩
      rw [hline, hhead] at hstart
      cases hstart

/-- a text, or an end of it that starts with a head -/
def Boundary (u : Unicode) (text s : Str) : Prop := s = text ∨ HeadAt u true text s

theorem Boundary.suffix {text s : Str} (h : Boundary u text s) : s <:+ text := by
  rcases h with rfl | ⟨-, a, rfl, -⟩
  · exact List.suffix_rfl
  · exact List.suffix_append a s

theorem splitHistoryEntries_flatten (text : Str) : (splitHistoryEntries u text).flatten = text := by
  have hflatten := cut_flatten (u := u) true text
  unfold splitHistoryEntries
  split_ifs with htext
  · exact htext.symm
  · simp only
    split_ifs with hnil
    · rwa [hnil, List.nil_append] at hflatten
    · exact hflatten

theorem boundary_iff {text s : Str} (htext : text ≠ []) : Boundary u text s ↔
    ∃ k < (splitHistoryEntries u text).length, s = ((splitHistoryEntries u text).drop k).flatten := by
  have hflatten := cut_flatten (u := u) true text
  have hsplit : splitHistoryEntries u text =
      if (cut u true text).1 = [] then (cut u true text).2 else (cut u true text).1 :: (cut u true text).2 := by
    rw [splitHistoryEntries, if_neg htext]
  rw [Boundary, headAt_iff_cut, hsplit]
  split_ifs with hnil
  · rw [hnil, List.nil_append] at hflatten
    refine or_iff_right_of_imp ?_
    rintro rfl
    refine ⟨0, List.length_pos_of_ne_nil fun h => htext ?_, hflatten.symm⟩
    rw [← hflatten, h]
    rfl
  · constructor
    · rintro (rfl | ⟨k, hk, rfl⟩)
      · exact ⟨0, Nat.succ_pos _, hflatten.symm⟩
      · exact ⟨k + 1, Nat.succ_lt_succ hk, rfl⟩
    · rintro ⟨k, hk, rfl⟩
      cases k with
      | zero => exact .inl hflatten
      | succ k => exact .inr ⟨k, Nat.lt_of_succ_lt_succ hk, rfl⟩

theorem splitHistoryEntries_ne_nil {text : Str} (htext : text ≠ []) : splitHistoryEntries u text ≠ [] := by
  intro h
  refine htext ?_
  rw [← splitHistoryEntries_flatten (u := u) text, h]
  rfl

/-- the oldest pieces are dropped, and no more of them than it takes -/
theorem dropOldest_eq (budget : ℕ) {es : List Str} (hes : es ≠ []) : ∃ k < es.length, dropOldest budget es = es.drop k ∧
    (∀ j < k, budget < utf8Size (es.drop j).flatten) ∧
    (utf8Size (es.drop k).flatten ≤ budget ∨ k + 1 = es.length) := by
  fun_induction dropOldest budget es with
  | case1 e e' es hover ih =>
    obtain ⟨k, hk, heq, hmin, hstop⟩ := ih (List.cons_ne_nil _ _)
    refine ⟨k + 1, Nat.succ_lt_succ hk, heq, ?_, hstop.imp id (congrArg (· + 1))⟩
    intro j hj
    cases j with
    | zero => exact hover
    | succ j => exact hmin j (Nat.lt_of_succ_lt_succ hj)
  | case2 e e' es hfits => exact ⟨0, Nat.succ_pos _, rfl, fun j hj => absurd hj (Nat.not_lt_zero j), .inl (not_lt.1 hfits)⟩
  | case3 entries hshort =>
    cases entries with
    | nil => exact absurd rfl hes
    | cons e es =>
      cases es with
      | nil => exact ⟨0, Nat.succ_pos _, rfl, fun j hj => absurd hj (Nat.not_lt_zero j), .inr rfl⟩
      | cons e' es => exact absurd rfl (hshort e e' es)

/-! ## The window -/

theorem getLast_terminated (t : Str) : (terminated t).getLast? = some '\n' := by
  unfold terminated
  split_ifs with h
  · exact h
  · exact List.getLast?_concat

theorem terminated_ne_nil (t : Str) : terminated t ≠ [] := by
  intro hnil
  have hlast := getLast_terminated t
  rw [hnil] at hlast
  cases hlast

theorem terminated_of_last {t : Str} (h : t.getLast? = some '\n') : terminated t = t := if_pos h

theorem getLast_of_suffix {s t : Str} (h : s <:+ t) (hs : s ≠ []) : s.getLast? = t.getLast? := by
  obtain ⟨a, rfl⟩ := h
  rw [List.getLast?_append_of_ne_nil a hs]

/-- the longest end of the text that fits -/
structure LongestEnd (budget : ℕ) (text out : Str) : Prop where
  suffix : out <:+ text
  fits : utf8Size out ≤ budget
  longest : ∀ s, s <:+ text → utf8Size s ≤ budget → s <:+ out

/-- what an append keeps: the longest of the text and its ends with a head that fits, or when none of them does the longest
end that fits, cut at a character -/
structure Window (u : Unicode) (budget : ℕ) (text out : Str) : Prop where
  suffix : out <:+ text
  fits : utf8Size out ≤ budget
  boundary : ∀ s, Boundary u text s → utf8Size s ≤ budget → s <:+ out ∧ Boundary u text out
  cut : (∀ s, Boundary u text s → budget < utf8Size s) → LongestEnd budget text out

/-- the bytes that are left of a text, read back -/
theorem decode_lastBytes {budget : ℕ} (hbudget : budget ≠ 0) {t : Str} (hover : budget < utf8Size t) :
    LongestEnd budget t (Utf8.decodeIgnore 0 (lastBytes budget (Utf8.encode t))) := by
  have hbytes : lastBytes budget (Utf8.encode t) = (Utf8.encode t).drop (utf8Size t - budget) := by
    rw [lastBytes, if_neg hbudget, Utf8.length_encode]
  obtain ⟨a, out, ht, hread, hfits, hmax⟩ := Utf8.decodeIgnore_drop t (utf8Size t - budget)
  rw [hbytes, hread]
  refine ⟨⟨a, ht.symm⟩, by omega, fun s hs hsfits => ?_⟩
  have hout : out <:+ t := ⟨a, ht.symm⟩
  rcases List.suffix_or_suffix_of_suffix hs hout with hle | ⟨x, rfl⟩
  · exact hle
  · -- one more character would not fit
    rcases List.eq_nil_or_concat x with rfl | ⟨x, c, rfl⟩
    · exact List.suffix_rfl
    · obtain ⟨b, hb⟩ := hs
      have hsplit : a = (b ++ x) ++ [c] := by
        rw [ht] at hb
        have happend : a ++ out = (b ++ x) ++ [c] ++ out := by
          rw [← hb]
          simp only [List.concat_eq_append, List.append_assoc]
        exact List.append_cancel_right happend
      have hbig := hmax (b ++ x) c hsplit
      have hsize : utf8Size (c :: out) ≤ utf8Size (x.concat c ++ out) := by
        refine Utf8.utf8Size_le_of_suffix ⟨x, ?_⟩
        simp only [List.concat_eq_append, List.append_assoc, List.singleton_append]
      omega

/-- something is kept of a text that ends with a newline -/
theorem Window.ne_nil {budget : ℕ} {text out : Str} (h : Window u budget text out) (hbudget : budget ≠ 0)
    (hlast : text.getLast? = some '\n') : out ≠ [] := by
  rintro rfl
  by_cases hsome : ∃ s, Boundary u text s ∧ utf8Size s ≤ budget
  · obtain ⟨s, hs, hsfits⟩ := hsome
    rcases (h.boundary s hs hsfits).2 with rfl | ⟨hhead, -⟩
    · cases hlast
    · exact isHead_nil hhead
  · obtain ⟨a, ha⟩ := List.getLast?_eq_some_iff.1 hlast
    have hcut := h.cut fun s hs => not_le.1 fun hsfits => hsome ⟨s, hs, hsfits⟩
    have hnewline := hcut.longest ['\n'] ⟨a, ha.symm⟩ (Nat.one_le_iff_ne_zero.2 hbudget)
    exact absurd (List.suffix_nil.1 hnewline) (List.cons_ne_nil _ _)

/-- the longest end of an end that does not fit -/
theorem LongestEnd.of_suffix {budget : ℕ} {text t out : Str} (h : LongestEnd budget t out) (ht : t <:+ text)
    (hover : budget < utf8Size t) : LongestEnd budget text out where
  suffix := h.suffix.trans ht
  fits := h.fits
  longest := by
    intro s hs hfits
    rcases List.suffix_or_suffix_of_suffix hs ht with hle | hge
    · exact h.longest s hle hfits
    · have hsize := Utf8.utf8Size_le_of_suffix hge
      omega

/-- **An append.** -/
theorem window {budget : ℕ} (hbudget : budget ≠ 0) (current entry : Str) :
    Window u budget ((if current = [] then current else terminated current) ++ terminated entry)
      (appendWithWindow u current entry budget) := by
  unfold appendWithWindow
  simp only
  generalize htext : (if current = [] then current else terminated current) ++ terminated entry = text
  have hentry := terminated_ne_nil entry
  have hne : text ≠ [] := by
    rw [← htext]
    exact List.append_ne_nil_of_right_ne_nil _ hentry
  have hlast : text.getLast? = some '\n' := by
    rw [← htext, List.getLast?_append_of_ne_nil _ hentry, getLast_terminated]
  obtain ⟨k, hk, heq, hmin, hstop⟩ := dropOldest_eq budget (splitHistoryEntries_ne_nil (u := u) hne)
  have hboundary : Boundary u text ((splitHistoryEntries u text).drop k).flatten := (boundary_iff hne).2 ⟨k, hk, rfl⟩
  rw [heq]
  generalize hrebuilt : ((splitHistoryEntries u text).drop k).flatten = rebuilt at hboundary hstop
  rcases Nat.lt_or_ge budget (utf8Size text) with hover | hfits
  · rw [if_neg (not_le.2 hover)]
    rcases Nat.lt_or_ge budget (utf8Size rebuilt) with hlarge | hsmall
    · -- the last piece is left, and too long
      have hnone : ∀ s, Boundary u text s → budget < utf8Size s := by
        intro s hs
        obtain ⟨j, hj, rfl⟩ := (boundary_iff hne).1 hs
        have hone := hstop.resolve_left (not_le.2 hlarge)
        rcases Nat.lt_or_ge j k with hlt | hge
        · exact hmin j hlt
        · obtain rfl : j = k := by omega
          rwa [hrebuilt]
      have hlong := (decode_lastBytes hbudget hlarge).of_suffix hboundary.suffix hlarge
      have hnewline : ['\n'] <:+ Utf8.decodeIgnore 0 (lastBytes budget (Utf8.encode rebuilt)) := by
        refine hlong.longest _ ?_ (Nat.one_le_iff_ne_zero.2 hbudget)
        obtain ⟨a, ha⟩ := List.getLast?_eq_some_iff.1 hlast
        exact ⟨a, ha.symm⟩
      have htail : Utf8.decodeIgnore 0 (lastBytes budget (Utf8.encode rebuilt)) ≠ [] := by
        intro hnil
        rw [hnil] at hnewline
        exact absurd (List.suffix_nil.1 hnewline) (List.cons_ne_nil _ _)
      rw [if_neg (not_le.2 hlarge), if_neg htail, terminated_of_last (by rw [getLast_of_suffix hlong.suffix htail, hlast])]
      exact ⟨hlong.suffix, hlong.fits, fun s hs hsfits => absurd (hnone s hs) (not_lt.2 hsfits), fun _ => hlong⟩
    · rw [if_pos hsmall]
      refine ⟨hboundary.suffix, hsmall, fun s hs hsfits => ⟨?_, hboundary⟩, fun hnone => ?_⟩
      · obtain ⟨j, -, rfl⟩ := (boundary_iff hne).1 hs
        have hkj : k ≤ j := by
          by_contra hlt
          exact absurd (hmin j (not_le.1 hlt)) (not_lt.2 hsfits)
        obtain ⟨i, rfl⟩ := Nat.exists_eq_add_of_le hkj
        rw [← hrebuilt, ← List.drop_drop]
        refine ⟨(((splitHistoryEntries u text).drop k).take i).flatten, ?_⟩
        rw [← List.flatten_append, List.take_append_drop]
      · exact absurd (hnone _ hboundary) (not_lt.2 hsmall)
  · rw [if_pos hfits]
    refine ⟨List.suffix_rfl, hfits, fun s hs _ => ⟨hs.suffix, .inl rfl⟩, fun hnone => ?_⟩
    exact absurd (hnone text (.inl rfl)) (not_lt.2 hfits)

/-! ## Histories -/

variable {budget : ℕ}

theorem history_concat (es : List Str) (e : Str) : history u budget (es ++ [e]) = appendWithWindow u (history u budget es) e budget := by
  rw [history, List.foldl_append]
  rfl

/-- what a text keeps of the last line -/
theorem last_of_suffix {text out e : Str} (h : out <:+ text ++ terminated e) (hne : out ≠ []) : out.getLast? = some '\n' := by
  have hentry := terminated_ne_nil e
  rw [getLast_of_suffix h hne, List.getLast?_append_of_ne_nil _ hentry, getLast_terminated]

/-- a history is empty or ends with a newline, and needs no separator -/
theorem history_line (hbudget : budget ≠ 0) (es : List Str) :
    history u budget es = [] ∨ (history u budget es).getLast? = some '\n' := by
  induction es using List.reverseRecOn with
  | nil => exact .inl rfl
  | append_singleton es e =>
    rw [history_concat]
    refine or_iff_not_imp_left.2 fun hne => ?_
    exact last_of_suffix (window hbudget (history u budget es) e).suffix hne

theorem history_window_step (hbudget : budget ≠ 0) (es : List Str) (e : Str) :
    Window u budget (history u budget es ++ terminated e) (history u budget (es ++ [e])) := by
  have hwindow := window (u := u) hbudget (history u budget es) e
  have hcurrent : (if history u budget es = [] then history u budget es else terminated (history u budget es)) =
      history u budget es := by
    rcases history_line (u := u) hbudget es with hnil | hlast
    · rw [if_pos hnil]
    · rw [terminated_of_last hlast, ite_self]
  rwa [hcurrent, ← history_concat] at hwindow

/-- the newest entry stands at a boundary -/
theorem boundary_newest (hbudget : budget ≠ 0) (es : List Str) {e : Str} (hhead : isHead u (terminated e) = true) :
    Boundary u (history u budget es ++ terminated e) (terminated e) := by
  rcases history_line (u := u) hbudget es with hnil | hlast
  · rw [hnil]
    exact .inl rfl
  · exact .inr ⟨hhead, _, rfl, .inr hlast⟩

/-- the newest entry is kept whole, where it fits and no line in it but the first starts an entry, or none does -/
theorem newest_whole (hbudget : budget ≠ 0) (es : List Str) {e : Str} (hfits : utf8Size (terminated e) ≤ budget)
    (hentry : isHead u (terminated e) = true ∨ ∀ s, ¬ HeadAt u true (terminated e) s) :
    terminated e <:+ history u budget (es ++ [e]) := by
  have hwindow := history_window_step (u := u) hbudget es e
  rcases hentry with hhead | hnone
  · exact (hwindow.boundary _ (boundary_newest hbudget es hhead) hfits).1
  · by_cases hsome : ∃ s, Boundary u (history u budget es ++ terminated e) s ∧ utf8Size s ≤ budget
    · obtain ⟨s, hs, hsfits⟩ := hsome
      rcases (hwindow.boundary s hs hsfits).2 with heq | ⟨hhead, a, ha, hline⟩
      · rw [heq]
        exact List.suffix_append _ _
      · -- a head in front of the entry, or the entry would have one
        rcases List.suffix_or_suffix_of_suffix (List.suffix_append (history u budget es) (terminated e)) hwindow.suffix
          with hin | ⟨x, hx⟩
        · exact hin
        · refine absurd ⟨hhead, x, hx.symm, ?_⟩ (hnone (history u budget (es ++ [e])))
          rcases List.eq_nil_or_concat x with rfl | ⟨x, c, rfl⟩
          · exact .inl ⟨rfl, rfl⟩
          · refine .inr ?_
            have hax : a = history u budget es ++ x.concat c := by
              rw [← hx, ← List.append_assoc] at ha
              exact (List.append_cancel_right ha).symm
            rcases hline with ⟨rfl, -⟩ | hlast
            · simp at hax
            · rwa [hax, List.getLast?_append_of_ne_nil _ (by simp)] at hlast
    · have hcut := hwindow.cut fun s hs => not_le.1 fun hsfits => hsome ⟨s, hs, hsfits⟩
      exact hcut.longest _ (List.suffix_append _ _) hfits

/-- the entries, each with its newline -/
def archive (es : List Str) : Str := es.flatMap terminated

theorem archive_append (a b : List Str) : archive (a ++ b) = archive a ++ archive b := List.flatMap_append

theorem archive_singleton (e : Str) : archive [e] = terminated e := by
  rw [archive, List.flatMap_cons, List.flatMap_nil, List.append_nil]

theorem history_suffix (hbudget : budget ≠ 0) (es : List Str) : history u budget es <:+ archive es := by
  induction es using List.reverseRecOn with
  | nil => exact List.suffix_rfl
  | append_singleton es e ih =>
    refine (history_window_step hbudget es e).suffix.trans ?_
    obtain ⟨a, ha⟩ := ih
    refine ⟨a, ?_⟩
    rw [archive_append, archive_singleton, ← ha, List.append_assoc]

/-! ## Dated entries -/

/-- one date, in front -/
structure Dated (u : Unicode) (e : Str) : Prop where
  head : isHead u (terminated e) = true
  inner : ∀ s, ¬ HeadAt u false (terminated e) s

theorem archive_line {es : List Str} (hne : archive es ≠ []) : (archive es).getLast? = some '\n' := by
  induction es using List.reverseRecOn with
  | nil => exact absurd rfl hne
  | append_singleton es e =>
    have hentry := terminated_ne_nil e
    rw [archive_append, archive_singleton, List.getLast?_append_of_ne_nil _ hentry, getLast_terminated]

/-- the heads of dated entries are where they start -/
theorem headAt_archive {es : List Str} (hdated : ∀ e ∈ es, Dated u e) {s : Str} (h : HeadAt u true (archive es) s) :
    ∃ k, s = archive (es.drop k) := by
  induction es generalizing s with
  | nil => exact absurd h not_headAt_nil
  | cons e es ih =>
    obtain ⟨hhead, a, ha, hline⟩ := h
    have hcons : archive (e :: es) = terminated e ++ archive es := rfl
    rw [hcons] at ha
    rcases List.append_eq_append_iff.1 ha with ⟨b, rfl, hb⟩ | ⟨b, hb, rfl⟩
    · -- behind the first entry
      have hrest : HeadAt u true (archive es) s := by
        refine ⟨hhead, b, hb, ?_⟩
        rcases List.eq_nil_or_concat b with rfl | ⟨b', c, rfl⟩
        · exact .inl ⟨rfl, rfl⟩
        · rcases hline with ⟨hnil, -⟩ | hlast
          · simp at hnil
          · exact .inr (by rwa [List.getLast?_append_of_ne_nil _ (by simp)] at hlast)
      obtain ⟨k, hk⟩ := ih (fun x hx => hdated x (List.mem_cons_of_mem e hx)) hrest
      exact ⟨k + 1, hk⟩
    · rcases hline with ⟨rfl, -⟩ | hlast
      · exact ⟨0, by rw [List.drop_zero, hcons, hb, List.nil_append]⟩
      · rcases List.eq_nil_or_concat b with rfl | ⟨b', c, rfl⟩
        · exact ⟨1, rfl⟩
        · -- inside of the first entry
          have hend : (b'.concat c).getLast? = some '\n' := by
            rw [← getLast_terminated e, hb, List.getLast?_append_of_ne_nil _ (by simp)]
          exact ((hdated e List.mem_cons_self).inner _ ⟨isHead_of_append hend hhead, a, hb, .inr hlast⟩).elim

/-- what stands in front of a run of entries, in a run of them -/
theorem line_of_archive {es : List Str} {k j : ℕ} {a : Str} (h : archive (es.drop k) = a ++ archive (es.drop j)) :
    a = [] ∨ a.getLast? = some '\n' := by
  rcases Nat.le_total k j with hle | hge
  · obtain ⟨i, rfl⟩ := Nat.exists_eq_add_of_le hle
    have hsplit : archive (es.drop k) = archive ((es.drop k).take i) ++ archive (es.drop (k + i)) := by
      rw [← List.drop_drop, ← archive_append, List.take_append_drop]
    rw [List.append_cancel_right (h.symm.trans hsplit)]
    exact or_iff_not_imp_left.2 archive_line
  · obtain ⟨i, rfl⟩ := Nat.exists_eq_add_of_le hge
    have hsplit : archive (es.drop j) = archive ((es.drop j).take i) ++ archive (es.drop (j + i)) := by
      rw [← List.drop_drop, ← archive_append, List.take_append_drop]
    have hlen := congrArg List.length h
    rw [hsplit] at hlen
    simp only [List.length_append] at hlen
    exact .inl (List.length_eq_zero_iff.1 (by omega))

/-- the newest entries that fit, none of them cut -/
structure Newest (u : Unicode) (budget : ℕ) (es : List Str) (out : Str) : Prop where
  whole : ∃ k, out = archive (es.drop k)
  longest : ∀ k, utf8Size (archive (es.drop k)) ≤ budget → archive (es.drop k) <:+ out

theorem history_newest (hbudget : budget ≠ 0) {es : List Str} (hdated : ∀ e ∈ es, Dated u e)
    (hfits : ∀ e ∈ es, utf8Size (terminated e) ≤ budget) : Newest u budget es (history u budget es) := by
  induction es using List.reverseRecOn with
  | nil => exact ⟨⟨0, rfl⟩, fun k _ => by rw [List.drop_nil]; exact List.suffix_rfl⟩
  | append_singleton es e ih =>
    have hes : ∀ x ∈ es, x ∈ es ++ [e] := fun x hx => List.mem_append_left [e] hx
    have he : e ∈ es ++ [e] := List.mem_append_right es (List.mem_singleton_self e)
    obtain ⟨⟨k, hk⟩, hlongest⟩ := ih (fun x hx => hdated x (hes x hx)) fun x hx => hfits x (hes x hx)
    have hwindow := history_window_step (u := u) hbudget es e
    have htext : history u budget es ++ terminated e = archive (es.drop k ++ [e]) := by
      rw [archive_append, archive_singleton, hk]
    have hdrop : ∀ j ≤ es.length, (es ++ [e]).drop j = es.drop j ++ [e] := fun j hj => List.drop_append_of_le_length hj
    have hnewest := boundary_newest (u := u) hbudget es (hdated e he).head
    refine ⟨?_, fun j hj => ?_⟩
    · have hall : ∀ x ∈ es.drop k ++ [e], Dated u x := by
        intro x hx
        refine hdated x ?_
        rcases List.mem_append.1 hx with hx | hx
        · exact hes x (List.mem_of_mem_drop hx)
        · exact List.mem_append_right es hx
      have hk' : es.drop k ++ [e] = (es ++ [e]).drop (min k es.length) := by
        rw [hdrop _ (min_le_right _ _)]
        rcases Nat.le_total k es.length with hle | hge
        · rw [min_eq_left hle]
        · rw [min_eq_right hge, List.drop_eq_nil_of_le hge, List.drop_length]
      rcases (hwindow.boundary _ hnewest (hfits e he)).2 with heq | hhead
      · exact ⟨min k es.length, by rw [heq, htext, hk']⟩
      · rw [htext] at hhead
        obtain ⟨j, hj⟩ := headAt_archive hall hhead
        exact ⟨min k es.length + j, by rw [hj, hk', List.drop_drop]⟩
    · rcases Nat.lt_or_ge es.length j with hlt | hle
      · rw [List.drop_eq_nil_of_le (by rw [List.length_append]; exact hlt)]
        exact List.nil_suffix
      · rw [hdrop j hle] at hj ⊢
        rw [archive_append, archive_singleton] at hj ⊢
        have hsmall : utf8Size (archive (es.drop j)) ≤ budget := by
          rw [Utf8.utf8Size_append] at hj
          omega
        refine (hwindow.boundary _ ?_ hj).1
        -- an entry starts there: the `j`-th, or the newest
        cases hrest : es.drop j with
        | nil => exact hnewest
        | cons x rest =>
          obtain ⟨a, ha⟩ := hlongest j hsmall
          have hx : x ∈ es := List.mem_of_mem_drop (hrest ▸ List.mem_cons_self)
          have hhead : isHead u (archive (x :: rest) ++ terminated e) = true := by
            rw [archive, List.flatMap_cons, List.append_assoc]
            exact isHead_append (hdated x (hes x hx)).head _
          rw [← hrest] at hhead ⊢
          rcases line_of_archive (hk.symm.trans ha.symm) with rfl | hlast
          · exact .inl (by rw [← ha, List.nil_append])
          · exact .inr ⟨hhead, a, by rw [← ha, List.append_assoc], .inr hlast⟩

/-! ## Results -/

/-- what a history is after an append of `e` -/
structure Bounded (u : Unicode) (budget : ℕ) (es : List Str) (e out : Str) : Prop where
  fits : utf8Size out ≤ budget
  line : out.getLast? = some '\n'
  archive : out <:+ archive (es ++ [e])
  newest : utf8Size (terminated e) ≤ budget → (isHead u (terminated e) = true ∨ ∀ s, ¬ HeadAt u true (terminated e) s) →
    terminated e <:+ out
  window : Window u budget (history u budget es ++ terminated e) out
  whole : (∀ x ∈ es ++ [e], Dated u x) → (∀ x ∈ es ++ [e], utf8Size (terminated x) ≤ budget) → Newest u budget (es ++ [e]) out

/-- **The history window.** -/
theorem history_bounded (u : Unicode) (budget : ℕ) (hbudget : budget ≠ 0) (es : List Str) (e : Str) :
    Bounded u budget es e (history u budget (es ++ [e])) := by
  have hwindow := history_window_step (u := u) hbudget es e
  have hentry := terminated_ne_nil e
  have hlast : (history u budget es ++ terminated e).getLast? = some '\n' := by
    rw [List.getLast?_append_of_ne_nil _ hentry, getLast_terminated]
  refine ⟨hwindow.fits, ?_, history_suffix hbudget _, newest_whole hbudget es, hwindow, history_newest hbudget⟩
  exact last_of_suffix hwindow.suffix (hwindow.ne_nil hbudget hlast)

/-- `\d` of the ASCII characters -/
def ascii : Unicode := ⟨fun c => '0'.val ≤ c.val && c.val ≤ '9'.val, fun _ _ => rfl⟩

theorem history_bounded_dated : Bounded ascii 40 ["[2026-01-01] a".toList] "[2026-01-02] b".toList
    (history ascii 40 (["[2026-01-01] a".toList] ++ ["[2026-01-02] b".toList])) :=
  history_bounded ascii 40 (by decide) _ _

/-- an undated entry is cut though the newest one would fit alone, and so is the newest one, where only its second line is
dated -/
theorem undated_cut : history ascii 4 ["abc".toList, "x".toList] = "c\nx\n".toList ∧
    history ascii 14 ["o".toList, "n\n[2024-01-01".toList] = "[2024-01-01\n".toList ∧
    utf8Size (terminated "n\n[2024-01-01".toList) ≤ 14 := by
  refine ⟨by decide +kernel, by decide +kernel, by decide +kernel⟩

end Clawbolt.Memory.History
