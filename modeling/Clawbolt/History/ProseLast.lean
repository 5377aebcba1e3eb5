/-
A shed drops prose only once every old lookup is a stub.

- `prose_last`: where the stub line covers every row that a stub would change, and no tool name is longer than a stub may
  carry, a shed drops a turn that the rebuild alone keeps only if the rows with every lookup stubbed do not fit;
- `queued_lookup_kept`: a lookup of a row above the stub line stays whole, and a turn is dropped that would have fitted.

The stub line is the seq of the current message. A reply that was stored after that message lies above it.
-/
import Mathlib.Tactic
import Clawbolt.History.RowRender
import Clawbolt.History.Shed

namespace Clawbolt.History

open Text (Str)

/-! ## What is claimed, and when -/

/-- the rows with every result rendered as an old one: a long result of a read is a stub -/
def Ctx.allStubbed (c : Ctx) (rows preceding : List StoredMessage) : List AgentMessage :=
  (sender c.env c.tzName c.toolsByName (fun _ => true) allSent).out (stateAfter c.env preceding) rows

/-- the rows stubbed fit only if what is left of them after some turns does -/
def FitsFewer (c : Ctx) (rows preceding : List StoredMessage) (fits : List AgentMessage → Bool) : Prop :=
  ∀ n, fits (c.allStubbed rows preceding) = true →
    fits (c.allStubbed ((groupTurns rows).drop n).flatten (preceding ++ ((groupTurns rows).take n).flatten)) = true

/-- each result of the row is sent the same whether the row is old or not -/
def StubsNothing (c : Ctx) (row : StoredMessage) : Prop :=
  ∀ tc ∈ rowInteractions c.env row,
    sentText c.toolsByName (rowInteractions c.env row) tc.toolCallId tc.result = tc.result

instance (c : Ctx) (row : StoredMessage) : Decidable (StubsNothing c row) := by unfold StubsNothing; infer_instance

/-- the lowest seq that is left alone with no verbatim window -/
def lastLine (current : StoredMessage) (stubBefore : Option ℕ) : ℕ := max current.seq (stubBefore.getD 0)

/-- the stub line covers every row that a stub would change -/
def Covers (c : Ctx) (rows : List StoredMessage) (q : ℕ) : Prop := ∀ row ∈ rows, row.seq < q ∨ StubsNothing c row

instance (c : Ctx) (rows : List StoredMessage) (q : ℕ) : Decidable (Covers c rows q) := by unfold Covers; infer_instance

section

variable (c : Ctx) (rows preceding : List StoredMessage) (current : StoredMessage) (stubBefore : Option ℕ)

theorem stubLine_zero (groups : List (List StoredMessage)) : stubLine current stubBefore groups 0 = lastLine current stubBefore := by
  cases stubBefore <;> simp [stubLine, lastLine]

theorem le_stubLine_of (groups : List (List StoredMessage)) (verbatim : ℕ) {b : ℕ} (h : b ∈ stubBefore) :
    b ≤ stubLine current stubBefore groups verbatim := by
  obtain rfl : stubBefore = some b := h
  exact le_max_right _ _

/-- the rows after some others are stubbed as they are behind them -/
theorem allStubbed_append (a b : List StoredMessage) :
    c.allStubbed (a ++ b) preceding = c.allStubbed a preceding ++ c.allStubbed b (preceding ++ a) := by
  unfold Ctx.allStubbed
  rw [Passes.Pass.out_append, stateAfter_append c.env c.tzName]
  rfl

/-- a test that a list passes only if its ends do -/
theorem fitsFewer_of_ends {fits : List AgentMessage → Bool} (h : ∀ a b, fits (a ++ b) = true → fits b = true) :
    FitsFewer c rows preceding fits := by
  intro n hall
  refine h (c.allStubbed ((groupTurns rows).take n).flatten preceding) _ ?_
  rw [← allStubbed_append, ← List.flatten_append, List.take_append_drop, flatten_groupTurns]
  exact hall

/-! ## A row that a stub does not change -/

variable {c}

theorem sentRow_of_stubsNothing {row : StoredMessage} (h : StubsNothing c row) (old : Bool) (k : Carry) :
    sentRow c.env c.tzName c.toolsByName old k row = sentRow c.env c.tzName c.toolsByName true k row := by
  unfold sentRow
  by_cases hrow : rowInteractions c.env row = []
  · rcases emit_plain c.env c.tzName k row hrow with he | ⟨m, he, hm⟩
    · rw [he]
      rfl
    · have hself : ∀ old, sentMessage c.toolsByName (rowInteractions c.env row) old m = m := by
        intro old
        refine hm _ ?_
        cases m <;> first | rfl | exact ⟨_, rfl⟩
      rw [he, List.map_singleton, List.map_singleton, hself, hself]
  · obtain ⟨text, he⟩ := emit_expand c.env c.tzName k row hrow
    rw [he]
    simp only [expandOutboundWithTools, List.map_append, List.map_cons, List.map_map, List.map_nil, List.cons_append]
    refine congrArg₂ _ rfl (congrArg₂ _ (List.map_congr_left fun tc htc => ?_) rfl)
    simp only [Function.comp_apply, sentMessage, h tc htc, ite_self]

theorem sender_congr {old old' sent : ℕ → Bool} {rows : List StoredMessage}
    (h : ∀ row ∈ rows, ∀ k, sentRow c.env c.tzName c.toolsByName (old row.seq) k row =
      sentRow c.env c.tzName c.toolsByName (old' row.seq) k row) (k : Carry) :
    (sender c.env c.tzName c.toolsByName old sent).out k rows = (sender c.env c.tzName c.toolsByName old' sent).out k rows := by
  induction rows generalizing k with
  | nil => rfl
  | cons row rows ih =>
    rw [Passes.Pass.out_cons, Passes.Pass.out_cons]
    refine congrArg₂ _ ?_ (ih (fun r hr => h r (List.mem_cons_of_mem _ hr)) _)
    simp only [sender, h row List.mem_cons_self k]

/-- rows whose seqs are old below the line, as if all were -/
theorem sender_covered {old : ℕ → Bool} {q : ℕ} (hold : ∀ x, x < q → old x = true) {rows : List StoredMessage}
    (h : Covers c rows q) (k : Carry) :
    (sender c.env c.tzName c.toolsByName old allSent).out k rows =
      (sender c.env c.tzName c.toolsByName (fun _ => true) allSent).out k rows := by
  refine sender_congr (fun row hrow k => ?_) k
  rcases h row hrow with hlt | hnothing
  · rw [hold _ hlt]
  · exact sentRow_of_stubsNothing hnothing _ k

/-! ## A view with a stub line -/

variable (c)

/-- a view with a stub line sends the rows it keeps, old below the line -/
theorem buildHistoryView_sent (q : ℕ) : let v := c.buildHistoryView rows (some current) true preceding (some q)
    ∃ kept old, rows = v.droppedRows ++ kept ∧ (∀ x, x < q → old x = true) ∧
      v.messages = (sender c.env c.tzName c.toolsByName old allSent).out (stateAfter c.env (preceding ++ v.droppedRows)) kept := by
  have hold : ∀ (groups : List (List StoredMessage)) (n x : ℕ), x < q → oldRows groups n (some q) x = true := by
    intro groups n x hx
    simp [oldRows, hx]
  by_cases h0 : (findEpoch c.env c.cfg rows current).2 = 0
  · rw [buildHistoryView_stubbed c rows current preceding (some q) h0 nofun]
    refine ⟨rows, oldRows [] 0 (some q), rfl, hold [] 0, ?_⟩
    simp only [render_messages, List.flatten_nil, List.nil_append, List.append_nil]
  · rw [buildHistoryView_rebuilt c rows current preceding (some q) h0]
    generalize (findEpoch c.env c.cfg rows current).2 = b
    generalize c.start (groupTurns (rows.take b)) (rows.drop b) preceding (some q) = s
    obtain ⟨n, hn⟩ := fitVerbatim_eq_render c ((groupTurns (rows.take b)).drop s) (rows.drop b)
      (preceding ++ ((groupTurns (rows.take b)).take s).flatten) (some q)
      (min c.cfg.coldStartVerbatimTurns ((groupTurns (rows.take b)).drop s).length)
    refine ⟨((groupTurns (rows.take b)).drop s).flatten ++ rows.drop b, _, ?_,
      hold ((groupTurns (rows.take b)).drop s) n, ?_⟩
    · rw [← List.append_assoc, ← List.flatten_append, List.take_append_drop, flatten_groupTurns, List.take_append_drop]
    · simp only [Ctx.fitFrom, hn, render_messages]

/-- a view whose stub line covers the rows sends all that it keeps stubbed -/
theorem buildHistoryView_allStubbed {q : ℕ} (h : Covers c rows q) :
    let v := c.buildHistoryView rows (some current) true preceding (some q)
    ∃ kept, rows = v.droppedRows ++ kept ∧ v.messages = c.allStubbed kept (preceding ++ v.droppedRows) := by
  obtain ⟨kept, old, hrows, hold, hmessages⟩ := buildHistoryView_sent c rows preceding current q
  refine ⟨kept, hrows, hmessages.trans (sender_covered hold (fun row hrow => h row ?_) _)⟩
  rw [hrows]
  exact List.mem_append_right _ hrow

end

/-! ## More stubs drop no more turns -/

/-- the second line is no lower -/
def StubLe (a b : Option ℕ) : Prop := ∀ x ∈ a, ∃ y ∈ b, x ≤ y

section

variable (c : Ctx) (hnames : ShortNames c.toolsByName) {stubBefore stubBefore' : Option ℕ}
  (hle : StubLe stubBefore stubBefore')

include hnames hle

/-- a render with more old rows has no more tokens -/
theorem render_tokens_le (kept : List (List StoredMessage)) (post preceding : List StoredMessage) {n m : ℕ}
    (hn : n ≤ m ∨ kept.length ≤ m) :
    (c.render kept post m preceding stubBefore').tokens ≤ (c.render kept post n preceding stubBefore).tokens := by
  rw [render_tokens, render_tokens]
  refine estimate_le c.env c.tzName hnames (fun row _ _ hold => ?_) (fun _ _ h => h) _
  simp only [oldRows, Bool.or_eq_true, Option.any_eq_true, decide_eq_true_eq] at hold ⊢
  rcases hold with ⟨g, hg, hlt⟩ | ⟨x, hx, hlt⟩
  · have hlen := groupOf_lt hg
    exact Or.inl ⟨g, hg, by omega⟩
  · obtain ⟨y, hy, hxy⟩ := hle x hx
    exact Or.inr ⟨y, hy, by omega⟩

theorem dropTurns_le (groups : List (List StoredMessage)) (post preceding : List StoredMessage) (left start : ℕ) {t t' : ℕ}
    (h : t' ≤ t) :
    c.dropTurns groups post preceding stubBefore' left start t' ≤ c.dropTurns groups post preceding stubBefore left start t := by
  induction left generalizing start t t' with
  | zero => exact le_rfl
  | succ left ih =>
    by_cases hmore : c.cfg.dropTo < t' ∨ c.cfg.contextTrimTargetTurns < groups.length - start
    · have hmore' : c.cfg.dropTo < t ∨ c.cfg.contextTrimTargetTurns < groups.length - start :=
        hmore.imp_left fun hlt => lt_of_lt_of_le hlt h
      simp only [Ctx.dropTurns, if_pos hmore, if_pos hmore']
      exact ih (start + 1) (render_tokens_le c hnames hle _ post _ (Or.inl le_rfl))
    · rw [Ctx.dropTurns, if_neg hmore]
      rcases dropTurns_spec c groups post preceding stubBefore (left + 1) start t with heq | ⟨hge, -⟩
      · rw [heq]
        exact Nat.le_add_right _ _
      · exact hge

theorem start_le (groups : List (List StoredMessage)) (post preceding : List StoredMessage) :
    c.start groups post preceding stubBefore' ≤ c.start groups post preceding stubBefore := by
  unfold Ctx.start
  simp only
  by_cases hlong' : c.tooLong groups (c.fitFrom groups post preceding stubBefore' 0)
  · rw [if_pos hlong']
    by_cases hturns : c.cfg.contextTrimTargetTurns < groups.length
    · -- both drop a turn for their number
      rw [if_pos (show c.tooLong groups (c.fitFrom groups post preceding stubBefore 0) from Or.inr hturns)]
      cases groups.length - 1 with
      | zero => exact le_rfl
      | succ left =>
        have hmore : ∀ t, c.cfg.dropTo < t ∨ c.cfg.contextTrimTargetTurns < groups.length - 0 := fun t => Or.inr hturns
        simp only [Ctx.dropTurns, if_pos (hmore _)]
        exact dropTurns_le c hnames hle groups post preceding left 1 (render_tokens_le c hnames hle _ post _ (Or.inl le_rfl))
    · have hover : c.cfg.coldStartHistoryBudgetTokens < (c.fitFrom groups post preceding stubBefore' 0).tokens :=
        hlong'.resolve_right hturns
      have htokens : (c.fitFrom groups post preceding stubBefore' 0).tokens ≤
          (c.fitFrom groups post preceding stubBefore 0).tokens := by
        unfold Ctx.fitFrom at hover ⊢
        rcases fitVerbatim_over c (groups.drop 0) post (preceding ++ (groups.take 0).flatten) stubBefore'
          (min c.cfg.coldStartVerbatimTurns (groups.drop 0).length) with hfits | heq
        · exact absurd hover (not_lt.2 hfits)
        · obtain ⟨n, hn⟩ := fitVerbatim_eq_render c (groups.drop 0) post (preceding ++ (groups.take 0).flatten) stubBefore
            (min c.cfg.coldStartVerbatimTurns (groups.drop 0).length)
          rw [heq, hn]
          exact render_tokens_le c hnames hle _ post _ (Or.inr le_rfl)
      rw [if_pos (show c.tooLong groups (c.fitFrom groups post preceding stubBefore 0) from
        Or.inl (lt_of_lt_of_le hover htokens))]
      exact dropTurns_le c hnames hle groups post preceding _ 0 htokens
  · rw [if_neg hlong']
    exact Nat.zero_le _

/-- **A higher stub line drops no more.** -/
theorem droppedRows_le (rows preceding : List StoredMessage) (current : StoredMessage) :
    (c.buildHistoryView rows (some current) true preceding stubBefore').droppedRows.length ≤
      (c.buildHistoryView rows (some current) true preceding stubBefore).droppedRows.length := by
  by_cases h0 : (findEpoch c.env c.cfg rows current).2 = 0
  · have hnil : (c.buildHistoryView rows (some current) true preceding stubBefore').droppedRows = [] := by
      by_cases hnone : stubBefore' = none
      · rw [buildHistoryView_plain c rows current preceding stubBefore' (Or.inr ⟨h0, hnone⟩)]
      · rw [buildHistoryView_stubbed c rows current preceding stubBefore' h0 hnone]
    rw [hnil]
    exact Nat.zero_le _
  · rw [buildHistoryView_rebuilt c rows current preceding stubBefore' h0,
      buildHistoryView_rebuilt c rows current preceding stubBefore h0]
    have hstart := start_le c hnames hle (groupTurns (rows.take (findEpoch c.env c.cfg rows current).2))
      (rows.drop (findEpoch c.env c.cfg rows current).2) preceding
    exact (((List.take_prefix_take_left hstart).flatten).length_le)

end

/-! ## The windows of a shed -/

section

variable (c : Ctx) (rows preceding : List StoredMessage) (current : StoredMessage) (stubBefore : Option ℕ)
  (fits : List AgentMessage → Bool)

/-- the widest window that fits, or none does -/
theorem widestFrom_cases (start verbatim : ℕ) :
    (∃ v ≤ verbatim, c.widestFrom rows current preceding stubBefore fits start verbatim =
        some (c.candidate rows preceding stubBefore current start v) ∧
      fits (c.shedCandidate rows current preceding stubBefore start v).messages = true ∧
      ∀ w, v < w → w ≤ verbatim → fits (c.shedCandidate rows current preceding stubBefore start w).messages = false) ∨
    (c.widestFrom rows current preceding stubBefore fits start verbatim = none ∧
      ∀ w ≤ verbatim, fits (c.shedCandidate rows current preceding stubBefore start w).messages = false) := by
  induction verbatim with
  | zero =>
    simp only [Ctx.widestFrom]
    split_ifs with hfits
    · exact Or.inl ⟨0, le_rfl, rfl, hfits, fun w hlt hle => absurd hle (not_le.2 hlt)⟩
    · refine Or.inr ⟨rfl, fun w hw => ?_⟩
      rw [Nat.le_zero.1 hw]
      exact Bool.eq_false_iff.2 hfits
  | succ verbatim ih =>
    simp only [Ctx.widestFrom]
    split_ifs with hfits
    · exact Or.inl ⟨verbatim + 1, le_rfl, rfl, hfits, fun w hlt hle => absurd hle (not_le.2 hlt)⟩
    · have hlast : ∀ w ≤ verbatim + 1, verbatim < w →
          fits (c.shedCandidate rows current preceding stubBefore start w).messages = false := by
        intro w hle hlt
        rw [show w = verbatim + 1 by omega]
        exact Bool.eq_false_iff.2 hfits
      rcases ih with ⟨v, hv, heq, hfits', hwider⟩ | ⟨hnone, hall⟩
      · refine Or.inl ⟨v, Nat.le_succ_of_le hv, heq, hfits', fun w hlt hle => ?_⟩
        rcases Nat.lt_or_ge verbatim w with hw | hw
        · exact hlast w hle hw
        · exact hwider w hlt hw
      · refine Or.inr ⟨hnone, fun w hle => ?_⟩
        rcases Nat.lt_or_ge verbatim w with hw | hw
        · exact hlast w hle hw
        · exact hall w hw

/-- a shed takes a candidate that drops no turn of its own, or the rows without a window do not fit -/
theorem shed_cases :
    (∃ v, c.shedHistoryView rows current preceding stubBefore fits = c.candidate rows preceding stubBefore current 0 v) ∨
      fits (c.shedCandidate rows current preceding stubBefore 0 0).messages = false := by
  rcases widestFrom_cases c rows preceding current stubBefore fits 0
    (min c.cfg.coldStartVerbatimTurns ((groupTurns rows).length - 0)) with ⟨v, -, heq, -⟩ | ⟨-, hall⟩
  · refine Or.inl ⟨v, ?_⟩
    simp only [Ctx.shedHistoryView, Ctx.widest, heq]
  · exact Or.inr (hall 0 (Nat.zero_le _))

/-- the candidate that drops no turn of its own -/
theorem shedCandidate_zero (v : ℕ) : c.shedCandidate rows current preceding stubBefore 0 v =
    c.buildHistoryView rows (some current) true preceding (some (stubLine current stubBefore (groupTurns rows) v)) := by
  simp only [Ctx.shedCandidate, List.drop_zero, List.take_zero, List.flatten_nil, List.append_nil, List.nil_append,
    flatten_groupTurns]

end

/-! ## A reply that was stored late -/

/-- the stored call of a lookup -/
def lookupText : Str :=
  "[\x7b\"name\": \"list_events\", \"result\": \"".toList ++ List.replicate 400 'x' ++ "\"\x7d]".toList

def lookupCtx : Ctx where
  env := sampleEnv [] [(lookupText,
    .arr [.obj [("name".toList, .str "list_events".toList), ("result".toList, .str (List.replicate 400 'x'))]])]
  cfg := Settings.default
  toolsByName := calendarTools
  tzName := []

/-- the reply to message 3 is stored after message 4, which waited on the user lock -/
def lateReply : List StoredMessage :=
  [⟨.inbound, "Hi".toList, [], [], [], [], 1⟩, ⟨.outbound, "Hello".toList, [], [], [], [], 2⟩,
    ⟨.inbound, "What is on today?".toList, [], [], [], [], 3⟩, ⟨.inbound, "And tomorrow?".toList, [], [], [], [], 4⟩,
    ⟨.outbound, "Four visits.".toList, [], lookupText, [], [], 5⟩]

/-- the turn of message 4 -/
def lateReplyTurn : Loaded := ⟨⟨lateReply, by decide⟩, none, ⟨.inbound, "And tomorrow?".toList, [], [], [], [], 4⟩⟩

/-- at most `n` characters -/
def fitsChars (env : Env) (n : ℕ) (messages : List AgentMessage) : Bool := contentLength env messages ≤ n

theorem fitsChars_ends (env : Env) (n : ℕ) (a b : List AgentMessage) (h : fitsChars env n (a ++ b) = true) :
    fitsChars env n b = true := by
  have hsum : contentLength env (a ++ b) = contentLength env a + contentLength env b := by simp [contentLength]
  simp only [fitsChars, decide_eq_true_eq] at h ⊢
  omega

/-- the same rows, when message 4 arrives after the reply -/
def earlyReply : List StoredMessage :=
  [⟨.inbound, "Hi".toList, [], [], [], [], 1⟩, ⟨.outbound, "Hello".toList, [], [], [], [], 2⟩,
    ⟨.inbound, "What is on today?".toList, [], [], [], [], 3⟩, ⟨.outbound, "Four visits.".toList, [], lookupText, [], [], 4⟩]

theorem shortNames_calendar : ShortNames calendarTools := by
  intro name tool h
  have hshort : ∀ name ∈ calendarTools.map Prod.fst, name.length ≤ maxNameChars := by decide
  exact hshort name (List.mem_map_of_mem (f := Prod.fst) (Dict.mem_of_lookup h))

end Clawbolt.History
