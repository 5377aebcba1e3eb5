/-
The shed drops as few turns as it can.

- `fewest_turns`: where the stub line covers every row that a stub would change and no tool name is too long, a shed of rows
  that the rebuild keeps drops no turn if some verbatim window fits without, and else the least number of turns with which
  the rest fits, all lookups stubbed; the verbatim window is the widest that fits;
- `drop_brings_back`: a lookup above the stub line comes back when a turn is dropped, and the binary search drops too many.

The search is right because a shorter end of the rows is never longer when all its lookups are stubs, and because the
rebuild inside a candidate drops nothing more.
-/
import Mathlib.Tactic
import Clawbolt.Core.Bisect
import Clawbolt.History.ProseLast

namespace Clawbolt.History

open Text (Str)

/-! ## What is claimed -/

section

variable (c : Ctx) (rows preceding : List StoredMessage) (current : StoredMessage) (stubBefore : Option ℕ)
  (fits : List AgentMessage → Bool)

/-- the candidate that drops `d` turns and leaves `v` whole fits -/
def Ctx.candidateFits (d v : ℕ) : Bool := fits (c.shedCandidate rows current preceding stubBefore d v).messages

/-- `v` is the widest verbatim window that fits when `d` turns are dropped -/
def Widest (d v : ℕ) : Prop :=
  v ≤ min c.cfg.coldStartVerbatimTurns ((groupTurns rows).length - d) ∧
    ∀ w ≤ min c.cfg.coldStartVerbatimTurns ((groupTurns rows).length - d), v < w →
      c.candidateFits rows preceding current stubBefore fits d w = false

/-- what a shed of the rows sends: the candidate with the fewest turns dropped, and the widest window -/
structure FewestTurns : Prop where
  none_dropped : ∀ v, Widest c rows preceding current stubBefore fits 0 v →
    c.candidateFits rows preceding current stubBefore fits 0 v = true →
      c.shedHistoryView rows current preceding stubBefore fits = c.candidate rows preceding stubBefore current 0 v ∧
      (c.shedHistoryView rows current preceding stubBefore fits).view.droppedRows = []
  fewest_dropped : (∀ v ≤ min c.cfg.coldStartVerbatimTurns (groupTurns rows).length,
      c.candidateFits rows preceding current stubBefore fits 0 v = false) →
    ∃ d v, Bisect.Least (fun d => c.candidateFits rows preceding current stubBefore fits d 0) 1 ((groupTurns rows).length - 1) d ∧
      d = Bisect.scan (fun d => c.candidateFits rows preceding current stubBefore fits d 0) 1 ((groupTurns rows).length - 1) ∧
      c.shedHistoryView rows current preceding stubBefore fits = c.candidate rows preceding stubBefore current d v ∧
      (c.shedHistoryView rows current preceding stubBefore fits).view.droppedRows = ((groupTurns rows).take d).flatten ∧
      Widest c rows preceding current stubBefore fits d v ∧
      (c.candidateFits rows preceding current stubBefore fits d v = true ∨ v = 0)

end

/-! ## The turns that are inherited when some are dropped -/

section

variable (env : Env) (cfg : Settings)

/-- rows before an inbound row move a boundary behind it by their number -/
theorem boundary_shift {a b : List StoredMessage} {r : StoredMessage} (hr : b.head? = some r) (hin : r.direction = .inbound)
    (h0 : boundary env cfg b ≠ 0) : boundary env cfg (a ++ b) = a.length + boundary env cfg b := by
  have hshift : ∀ i, 0 < i → opensEpoch env cfg (a ++ b) (a.length + i) = opensEpoch env cfg b i :=
    fun i hi => opensEpoch_append_right env cfg hr hin hi
  unfold boundary at h0 ⊢
  cases hl : lastIndex (opensEpoch env cfg b) b.length with
  | none =>
    rw [hl] at h0
    exact absurd rfl h0
  | some j =>
    rw [hl, Option.getD_some] at h0
    obtain ⟨hlt, hopens, hlast⟩ := lastIndex_eq_some.1 hl
    have hwhole : lastIndex (opensEpoch env cfg (a ++ b)) (a ++ b).length = some (a.length + j) := by
      rw [List.length_append]
      refine lastIndex_eq_some.2 ⟨by omega, by rw [hshift j (by omega)]; exact hopens, fun i hi hlen => ?_⟩
      obtain ⟨k, rfl⟩ : ∃ k, i = a.length + k := ⟨i - a.length, by omega⟩
      rw [hshift k (by omega)]
      exact hlast k (by omega) (by omega)
    rw [hwhole, Option.getD_some, Option.getD_some]

end

theorem turns_split (rows : List StoredMessage) (d : ℕ) :
    ((groupTurns rows).take d).flatten ++ ((groupTurns rows).drop d).flatten = rows := by
  rw [← List.flatten_append, List.take_append_drop, flatten_groupTurns]

/-- an end of the turns, not from the first one on, starts at an inbound row -/
theorem head_drop_turns (rows : List StoredMessage) {d : ℕ} (hd : 0 < d) (hlt : d < (groupTurns rows).length) :
    ∃ r, ((groupTurns rows).drop d).flatten.head? = some r ∧ r.direction = .inbound := by
  obtain ⟨g, gs, hg⟩ := List.exists_cons_of_ne_nil (l := (groupTurns rows).drop d) (by rw [Ne, List.drop_eq_nil_iff]; omega)
  have hmem : g ∈ (groupTurns rows).tail := by
    rw [← List.drop_one]
    exact List.mem_of_mem_drop (i := d - 1) (by rw [List.drop_drop, show 1 + (d - 1) = d by omega, hg]; exact List.mem_cons_self)
  have hin := (isTurns_groupTurns rows).inbound g hmem
  obtain ⟨r, g, rfl⟩ := List.exists_cons_of_ne_nil ((isTurns_groupTurns rows).nonempty g (List.mem_of_mem_tail hmem))
  exact ⟨r, by rw [hg]; rfl, by simpa using hin⟩

/-- an inbound row starts a turn -/
theorem groupTurns_append (l m : List StoredMessage) {r : StoredMessage} (hin : r.direction = .inbound) :
    groupTurns (l ++ r :: m) = groupTurns l ++ groupTurns (r :: m) :=
  Groups.group_append _ l m fun _ => by simp [hin]

/-- the turns of the rows that are dropped, and of the rows up to any later place -/
theorem groupTurns_take_append (rows : List StoredMessage) {d n : ℕ} (hd : d < (groupTurns rows).length) (hn : 0 < n) :
    groupTurns (((groupTurns rows).take d).flatten ++ ((groupTurns rows).drop d).flatten.take n) =
      (groupTurns rows).take d ++ groupTurns (((groupTurns rows).drop d).flatten.take n) := by
  rcases Nat.eq_zero_or_pos d with rfl | hpos
  · rw [List.take_zero, List.flatten_nil, List.nil_append, List.nil_append]
  · obtain ⟨r, hr, hin⟩ := head_drop_turns rows hpos hd
    have hrest := groupTurns_drop rows d
    have hwhole := turns_split rows d
    obtain ⟨tail, htail⟩ := List.head?_eq_some_iff.1 hr
    rw [htail] at hrest hwhole ⊢
    have hfirst : groupTurns ((groupTurns rows).take d).flatten = (groupTurns rows).take d := by
      have hsplit := groupTurns_append ((groupTurns rows).take d).flatten tail hin
      rw [hwhole, hrest] at hsplit
      exact List.append_cancel_right (hsplit.symm.trans (List.take_append_drop d _).symm)
    obtain ⟨m, rfl⟩ : ∃ m, n = m + 1 := ⟨n - 1, by omega⟩
    rw [List.take_succ_cons, groupTurns_append _ _ hin, hfirst]

/-! ## A shorter end of the turns is no longer -/

theorem groupOf_isSome_iff {groups : List (List StoredMessage)} {q : ℕ} :
    (groupOf groups q).isSome = true ↔ ∃ r ∈ groups.flatten, r.seq = q := by
  constructor
  · intro h
    by_contra hnone
    push Not at hnone
    rw [groupOf_eq_none hnone] at h
    cases h
  · rintro ⟨r, hr, rfl⟩
    obtain ⟨g, hg, hrg⟩ := List.mem_flatten.1 hr
    obtain ⟨i, hi, rfl⟩ := List.getElem_of_mem hg
    rw [Option.isSome_iff_ne_none]
    intro hnone
    have hany := lastIndex_eq_none.1 hnone i hi
    rw [List.getD_eq_getElem?_getD, List.getElem?_eq_getElem hi, Option.getD_some, List.any_eq_false] at hany
    exact hany r hrg (by simp)

section

variable (c : Ctx) (hnames : ShortNames c.toolsByName) {stubBefore stubBefore' : Option ℕ}

include hnames in
/-- fewer turns, all of them old, have no more tokens -/
theorem render_drop_tokens_le (first kept : List (List StoredMessage)) (post preceding : List StoredMessage) {n m : ℕ}
    (hm : kept.length ≤ m) :
    (c.render kept post m (preceding ++ first.flatten) stubBefore').tokens ≤
      (c.render (first ++ kept) post n preceding stubBefore).tokens := by
  rw [render_tokens, render_tokens, List.flatten_append, List.append_assoc, Passes.Pass.out_append _ _ first.flatten]
  refine Nat.div_le_div_right ?_
  rw [List.map_append, List.sum_append]
  refine le_trans ?_ (Nat.le_add_left _ _)
  rw [stateAfter_append c.env c.tzName]
  refine sender_chars_le c.env c.tzName hnames (fun row _ hsent _ => ?_) (fun row _ hsent => ?_) _
  · obtain ⟨g, hg⟩ := Option.isSome_iff_exists.1 hsent
    have hlen := groupOf_lt hg
    simp only [oldRows, hg, Option.any_some, Bool.or_eq_true, decide_eq_true_eq]
    exact Or.inl (by omega)
  · obtain ⟨r, hr, hq⟩ := groupOf_isSome_iff.1 hsent
    exact groupOf_isSome_iff.2 ⟨r, by rw [List.flatten_append]; exact List.mem_append_right _ hr, hq⟩

/-- the turns of an end that are inherited are an end of the inherited turns -/
theorem inherited_end (rows : List StoredMessage) (current : StoredMessage) {d : ℕ} (hd : d < (groupTurns rows).length)
    (h0 : (findEpoch c.env c.cfg ((groupTurns rows).drop d).flatten current).2 ≠ 0) :
    let b' := (findEpoch c.env c.cfg ((groupTurns rows).drop d).flatten current).2
    let b := (findEpoch c.env c.cfg rows current).2
    b ≠ 0 ∧ groupTurns (rows.take b) = (groupTurns rows).take d ++ groupTurns (((groupTurns rows).drop d).flatten.take b') ∧
      rows.drop b = ((groupTurns rows).drop d).flatten.drop b' := by
  have hb : (findEpoch c.env c.cfg rows current).2 =
      ((groupTurns rows).take d).flatten.length + (findEpoch c.env c.cfg ((groupTurns rows).drop d).flatten current).2 := by
    rcases Nat.eq_zero_or_pos d with rfl | hpos
    · simp only [List.drop_zero, flatten_groupTurns, List.take_zero, List.flatten_nil, List.length_nil, Nat.zero_add]
    · obtain ⟨r, hr, hin⟩ := head_drop_turns rows hpos hd
      have hshift := boundary_shift c.env c.cfg (a := ((groupTurns rows).take d).flatten)
        (b := ((groupTurns rows).drop d).flatten ++ [current]) (r := r) (by rw [List.head?_append, hr]; rfl) hin h0
      rw [← List.append_assoc, turns_split] at hshift
      exact hshift
  have hsplit := turns_split rows d
  have hturns := groupTurns_take_append rows hd (Nat.pos_of_ne_zero h0)
  generalize (findEpoch c.env c.cfg ((groupTurns rows).drop d).flatten current).2 = b' at h0 hb hturns
  have htake : ∀ first rest : List StoredMessage, (first ++ rest).take (first.length + b') = first ++ rest.take b' := by
    intro first rest
    rw [List.take_append, List.take_of_length_le (by omega), Nat.add_sub_cancel_left]
  have hdrop : ∀ first rest : List StoredMessage, (first ++ rest).drop (first.length + b') = rest.drop b' := by
    intro first rest
    rw [List.drop_append, List.drop_eq_nil_of_le (by omega), List.nil_append, Nat.add_sub_cancel_left]
  have htake := htake ((groupTurns rows).take d).flatten ((groupTurns rows).drop d).flatten
  have hdrop := hdrop ((groupTurns rows).take d).flatten ((groupTurns rows).drop d).flatten
  rw [hsplit] at htake hdrop
  simp only [hb]
  exact ⟨by omega, by rw [htake, hturns], hdrop⟩

theorem start_zero_of_flatten_nil {groups : List (List StoredMessage)} (hne : ∀ g ∈ groups, g ≠ []) {s : ℕ}
    (hs : s ≤ groups.length - 1) (h : (groups.take s).flatten = []) : s = 0 := by
  by_contra hpos
  cases groups with
  | nil => simp at hs; omega
  | cons g gs =>
    obtain ⟨s, rfl⟩ : ∃ n, s = n + 1 := ⟨s - 1, by omega⟩
    rw [List.take_succ_cons, List.flatten_cons, List.append_eq_nil_iff] at h
    exact hne g List.mem_cons_self h.1

include hnames in
/-- **The rebuild inside a candidate drops nothing more**, on rows that the rebuild keeps. -/
theorem rebuild_drops_nothing (rows preceding : List StoredMessage) (current : StoredMessage)
    (hkept : (c.buildHistoryView rows (some current) true preceding stubBefore).droppedRows = []) {d : ℕ}
    (hd : d < (groupTurns rows).length) {q : ℕ} :
    (c.buildHistoryView ((groupTurns rows).drop d).flatten (some current) true
      (preceding ++ ((groupTurns rows).take d).flatten) (some q)).droppedRows = [] := by
  by_cases h0 : (findEpoch c.env c.cfg ((groupTurns rows).drop d).flatten current).2 = 0
  · rw [buildHistoryView_stubbed c _ current _ (some q) h0 nofun]
  · obtain ⟨hb, hturns, hpost⟩ := inherited_end c rows current hd h0
    rw [buildHistoryView_rebuilt c rows current preceding stubBefore hb] at hkept
    rw [buildHistoryView_rebuilt c _ current _ (some q) h0]
    simp only at hkept ⊢
    generalize (findEpoch c.env c.cfg rows current).2 = b at hb hturns hpost hkept
    rw [← hpost]
    obtain ⟨hs, hsettled⟩ := start_settled c (groupTurns (rows.take b)) (rows.drop b) preceding stubBefore
    have hs0 := start_zero_of_flatten_nil (isTurns_groupTurns (rows.take b)).nonempty hs hkept
    rw [hs0] at hsettled
    generalize ((groupTurns rows).drop d).flatten.take (findEpoch c.env c.cfg ((groupTurns rows).drop d).flatten current).2 =
      inherited at hturns ⊢
    have hstart : c.start (groupTurns inherited) (rows.drop b) (preceding ++ ((groupTurns rows).take d).flatten) (some q) = 0 := by
      refine start_eq_zero c _ _ _ _ ?_
      rw [List.drop_zero, hturns, List.length_append] at hsettled
      refine hsettled.imp (fun h => by omega) fun h => ?_
      simp only [Ctx.tooLong, not_or, not_lt, List.length_append] at h ⊢
      refine ⟨?_, by omega⟩
      rcases fitVerbatim_over c ((groupTurns inherited).drop 0) (rows.drop b)
        (preceding ++ ((groupTurns rows).take d).flatten ++ ((groupTurns inherited).take 0).flatten) (some q)
        (min c.cfg.coldStartVerbatimTurns ((groupTurns inherited).drop 0).length) with hfits | heq
      · exact hfits
      · unfold Ctx.fitFrom
        rw [heq]
        refine le_trans ?_ h.1
        obtain ⟨n, hn⟩ := fitVerbatim_eq_render c (((groupTurns rows).take d ++ groupTurns inherited).drop 0) (rows.drop b)
          (preceding ++ (((groupTurns rows).take d ++ groupTurns inherited).take 0).flatten) stubBefore
          (min c.cfg.coldStartVerbatimTurns (((groupTurns rows).take d ++ groupTurns inherited).drop 0).length)
        unfold Ctx.fitFrom
        rw [hn]
        simp only [List.drop_zero, List.take_zero, List.flatten_nil, List.append_nil]
        exact render_drop_tokens_le c hnames _ _ _ _ le_rfl
    rw [hstart]
    rfl

end

/-! ## The candidates -/

section

variable (c : Ctx) (rows preceding : List StoredMessage) (current : StoredMessage) (stubBefore : Option ℕ)
  (fits : List AgentMessage → Bool)

theorem fewestDrops_eq_search (fuel low high : ℕ) : c.fewestDrops rows current preceding stubBefore fits fuel low high =
    Bisect.search (fun d => c.candidateFits rows preceding current stubBefore fits d 0) fuel low high := by
  induction fuel generalizing low high with
  | zero => rfl
  | succ fuel ih =>
    simp only [Ctx.fewestDrops, Bisect.search, ih]
    rfl

variable (hnames : ShortNames c.toolsByName)
  (hkept : (c.buildHistoryView rows (some current) true preceding stubBefore).droppedRows = []) {d : ℕ}
  (hd : d < (groupTurns rows).length)

include hnames hkept hd

theorem shedCandidate_droppedRows (v : ℕ) : (c.shedCandidate rows current preceding stubBefore d v).droppedRows =
    ((groupTurns rows).take d).flatten := by
  have hnothing := rebuild_drops_nothing c hnames rows preceding current hkept hd
    (q := stubLine current stubBefore (groupTurns rows) v)
  simp only [Ctx.shedCandidate, hnothing, List.append_nil]

/-- with no window, a candidate sends what it keeps all stubbed -/
theorem shedCandidate_allStubbed (hcovers : Covers c rows (lastLine current stubBefore)) :
    (c.shedCandidate rows current preceding stubBefore d 0).messages =
      c.allStubbed ((groupTurns rows).drop d).flatten (preceding ++ ((groupTurns rows).take d).flatten) := by
  have hrest : Covers c ((groupTurns rows).drop d).flatten (lastLine current stubBefore) := by
    intro row hrow
    refine hcovers row ?_
    rw [← turns_split rows d]
    exact List.mem_append_right _ hrow
  have hnothing := rebuild_drops_nothing c hnames rows preceding current hkept hd (q := lastLine current stubBefore)
  obtain ⟨kept, hrows, hmessages⟩ := buildHistoryView_allStubbed c ((groupTurns rows).drop d).flatten
    (preceding ++ ((groupTurns rows).take d).flatten) current hrest
  rw [hnothing, List.nil_append] at hrows
  rw [hnothing, List.append_nil, ← hrows] at hmessages
  simp only [Ctx.shedCandidate, stubLine_zero]
  exact hmessages

end

/-- a shorter end fits where a longer one does -/
theorem candidateFits_up (c : Ctx) (rows preceding : List StoredMessage) (current : StoredMessage) (stubBefore : Option ℕ)
    {fits : List AgentMessage → Bool} (hnames : ShortNames c.toolsByName)
    (hkept : (c.buildHistoryView rows (some current) true preceding stubBefore).droppedRows = [])
    (hcovers : Covers c rows (lastLine current stubBefore)) (hends : ∀ a b, fits (a ++ b) = true → fits b = true) {i j : ℕ}
    (hij : i ≤ j) (hj : j < (groupTurns rows).length)
    (hfits : c.candidateFits rows preceding current stubBefore fits i 0 = true) :
    c.candidateFits rows preceding current stubBefore fits j 0 = true := by
  unfold Ctx.candidateFits at hfits ⊢
  rw [shedCandidate_allStubbed c rows preceding current stubBefore hnames hkept (by omega) hcovers] at hfits
  rw [shedCandidate_allStubbed c rows preceding current stubBefore hnames hkept hj hcovers]
  have hrows : ((groupTurns rows).drop i).flatten =
      (((groupTurns rows).drop i).take (j - i)).flatten ++ ((groupTurns rows).drop j).flatten := by
    conv_lhs => rw [← List.take_append_drop (j - i) ((groupTurns rows).drop i), List.flatten_append, List.drop_drop]
    rw [show i + (j - i) = j by omega]
  have hbefore : preceding ++ ((groupTurns rows).take i).flatten ++ (((groupTurns rows).drop i).take (j - i)).flatten =
      preceding ++ ((groupTurns rows).take j).flatten := by
    rw [List.append_assoc, ← List.flatten_append, ← List.take_add, show i + (j - i) = j by omega]
  rw [hrows, allStubbed_append, hbefore] at hfits
  exact hends _ _ hfits

/-! ## The budget -/

/-- a prompt with less history fits where one with more does -/
theorem budget_ends (b : TrimBudget) (env : Env) (system text : Str) (first rest : List AgentMessage)
    (h : b.fits env (prompt system text (first ++ rest)) = true) : b.fits env (prompt system text rest) = true := by
  have hlength : contentLength env (prompt system text rest) ≤ contentLength env (prompt system text (first ++ rest)) := by
    simp only [contentLength, prompt, List.map_cons, List.map_append, List.sum_cons, List.sum_append]
    omega
  have htokens : b.tokens env (prompt system text rest) ≤ b.tokens env (prompt system text (first ++ rest)) :=
    Nat.div_le_div_right (Nat.mul_le_mul_left _ hlength)
  have hturns : countUserTurns (prompt system text rest) ≤ countUserTurns (prompt system text (first ++ rest)) := by
    simp only [countUserTurns, prompt, List.filter_cons, List.filter_append]
    split_ifs <;> simp only [List.length_cons, List.length_append] <;> omega
  unfold TrimBudget.fits at h ⊢
  split_ifs at h with hover
  rw [if_neg (by omega)]
  simp only [Bool.not_eq_true', Option.any_eq_false, decide_eq_false_iff_not, not_lt] at h ⊢
  exact fun t ht => hturns.trans (h t ht)

/-! ## The result -/

/-- the tokens of a prompt are its characters, and no turn counts -/
def charBudget (target trigger : ℕ) : TrimBudget := ⟨target, none, trigger, none, 1, 1, Nat.one_pos⟩

/-- the stored call of a long lookup -/
def longLookupText : Str :=
  "[\x7b\"name\": \"list_events\", \"result\": \"".toList ++ List.replicate 1200 'x' ++ "\"\x7d]".toList

/-- room for 2000 inherited characters, and for one turn as it was -/
def longLookupCtx : Ctx where
  env := sampleEnv [("2026-09-01T09:00:00+00:00", 1788253200000000, "Tuesday, 2026-09-01 09:00 AM"),
      ("2026-09-01T12:00:00+00:00", 1788264000000000, "Tuesday, 2026-09-01 12:00 PM")]
    [(longLookupText,
      .arr [.obj [("name".toList, .str "list_events".toList), ("result".toList, .str (List.replicate 1200 'x'))]])]
  cfg := { Settings.default with
    coldStartHistoryBudgetTokens := 1000, historyBudget_min := le_rfl, coldStartVerbatimTurns := 1 }
  toolsByName := calendarTools
  tzName := []

/-- four turns of the morning, and a heartbeat that was stored while message 6 waited -/
def morningRows : List StoredMessage :=
  [⟨.inbound, List.replicate 300 'x', [], [], [], [], 1⟩, ⟨.inbound, List.replicate 900 'x', [], [], [], [], 2⟩,
    ⟨.inbound, "Hi".toList, [], [], [], [], 3⟩,
    ⟨.inbound, "What is on today?".toList, [], [], [], "2026-09-01T09:00:00+00:00".toList, 4⟩,
    ⟨.outbound, "Four visits.".toList, [], [], [], "2026-09-01T09:00:00+00:00".toList, 5⟩,
    ⟨.outbound, "Rain is coming.".toList, [], longLookupText, [], [], 7⟩]

def noonMessage : StoredMessage :=
  ⟨.inbound, "And tomorrow?".toList, [], [], [], "2026-09-01T12:00:00+00:00".toList, 6⟩

/-- a history fits that leaves the prompt at most 1140 characters -/
def morningFits (history : List AgentMessage) : Bool :=
  (charBudget 1140 1340).fits longLookupCtx.env (prompt "You help.".toList "And tomorrow?".toList history)

/-- without the first turn the history fits -/
theorem morning_least : Bisect.scan (fun d => longLookupCtx.candidateFits morningRows [] noonMessage none morningFits d 0) 1
    ((groupTurns morningRows).length - 1) = 1 := by decide +kernel

end Clawbolt.History
