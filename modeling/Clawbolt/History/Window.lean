/-
The rows a turn loads (`load_history_step` in agent/router.py, the row selection of `load_conversation_history` in
agent/context.py, `_select_messages_above_watermark` and `get_messages_up_to_seq_async` in agent/session_db.py).

A turn loads the rows above the trim watermark. When rows were persisted while its message waited on the user lock, the
later inbound rows are left out and the message's own row goes last, out of seq order. The loader takes the last row for
the current one; of the rows before it, `history`, the first few may be compacted as overflow and the last `limit - 1`
are the window. Rows between the two, when the backlog is long, are in neither.

- `history_sublist`: the rows before the current one are rows of the session, in order;
- `visible_in_slice`: a row that renders in the conversation renders in each slice of it that the turn converts.
-/
import Mathlib.Tactic
import Clawbolt.History.Convert
import Clawbolt.History.Epoch

namespace Clawbolt.History

open Text (Str)

/-! ## Model -/

/-- the rows of a session: unique seqs, read in their order -/
structure Transcript where
  rows : List StoredMessage
  increasing : rows.Pairwise (·.seq < ·.seq)

/-- `seq > last_trim_seq`, or no watermark -/
def isAbove (lastTrimSeq : Option ℕ) (m : StoredMessage) : Bool := lastTrimSeq.all (· < m.seq)

/-- a row that the turn of `current` takes for history when others were persisted after it -/
def isEarlier (current m : StoredMessage) : Bool :=
  m.seq < current.seq || (current.seq < m.seq && m.direction = .outbound)

/-- the rows persisted after this turn's message -/
def hasLater (messages : List StoredMessage) (current : StoredMessage) : Bool :=
  current.seq ≠ 0 && messages.any (current.seq < ·.seq)

/-- `load_history_step`: the messages of the history session -/
def historyMessages (messages : List StoredMessage) (current : StoredMessage) : List StoredMessage :=
  if hasLater messages current then messages.filter (isEarlier current) ++ [current] else messages

/-- `_WINDOW_OVERFLOW_BATCH_ROWS` -/
def windowOverflowBatchRows : ℕ := 32

/-- `_WINDOW_OVERFLOW_MAX_ROWS_PER_TURN` -/
def windowOverflowMaxRowsPerTurn : ℕ := 200

/-- `_PRECEDING_LOOKBACK_ROWS` -/
def precedingLookbackRows : ℕ := 20

/-- `rows[-n:]` for a positive `n` -/
def lastRows (n : ℕ) (rows : List StoredMessage) : List StoredMessage := rows.drop (rows.length - n)

/-- what a turn is given: the session's rows and watermark, and its message -/
structure Loaded where
  transcript : Transcript
  lastTrimSeq : Option ℕ
  current : StoredMessage

namespace Loaded

variable (l : Loaded) (cfg : Settings)

/-- the rows above the watermark -/
def above : List StoredMessage := l.transcript.rows.filter (isAbove l.lastTrimSeq)

/-- `all_messages`: the loader filters once more, the turn's own message too -/
def allMessages : List StoredMessage := (historyMessages l.above l.current).filter (isAbove l.lastTrimSeq)

def compactCount : ℕ :=
  min (l.allMessages.length - 1) (min (l.allMessages.length - cfg.conversationHistoryLimit + windowOverflowBatchRows)
    windowOverflowMaxRowsPerTurn)

def overflow : List StoredMessage :=
  if cfg.conversationHistoryLimit < l.allMessages.length ∧ cfg.compactionEnabled = true then
    l.allMessages.take (l.compactCount cfg)
  else []

def windowStart : ℕ := l.allMessages.length - cfg.conversationHistoryLimit

/-- the window, without the last row -/
def window : List StoredMessage :=
  if 1 < l.allMessages.length then (l.allMessages.drop (l.windowStart cfg)).dropLast else []

/-- the rows just before the window, some of them below the watermark -/
def preceding : List StoredMessage :=
  let preceding := lastRows precedingLookbackRows (l.allMessages.take (l.windowStart cfg))
  match l.lastTrimSeq with
  | none => preceding
  | some w =>
    if l.window cfg ≠ [] ∧ preceding.length < precedingLookbackRows ∧ w ≠ 0 then
      lastRows (precedingLookbackRows - preceding.length) (l.transcript.rows.filter (·.seq ≤ w)) ++ preceding
    else preceding

/-- the row that the loader takes for the current one -/
def lastRow : Option StoredMessage := l.allMessages.getLast?

/-! ## The rows before the current one -/

/-- `all_messages[:-1]` -/
def history : List StoredMessage := l.allMessages.dropLast

/-- the rows below the watermark -/
def below : List StoredMessage := l.transcript.rows.filter fun m => !isAbove l.lastTrimSeq m

/-- the rows that the turn does not leave out -/
def kept (m : StoredMessage) : Bool := !hasLater l.above l.current || isEarlier l.current m

theorem history_prefix : l.history <+: l.above.filter l.kept := by
  unfold history allMessages historyMessages
  have hidem : ∀ p, (l.above.filter p).filter (isAbove l.lastTrimSeq) = l.above.filter p := fun p => by
    refine List.filter_eq_self.2 fun m hm => ?_
    exact (List.mem_filter.1 (List.mem_filter.1 hm).1).2
  split_ifs with h
  · have hk : l.above.filter l.kept = l.above.filter (isEarlier l.current) :=
      List.filter_congr fun m _ => by simp [kept, h]
    rw [List.filter_append, hidem, hk]
    by_cases hc : isAbove l.lastTrimSeq l.current = true
    · simp [hc]
    · simp only [hc, Bool.false_eq_true, not_false_eq_true, List.filter_cons_of_neg, List.filter_nil, List.append_nil]
      exact List.dropLast_prefix _
  · have hk : l.above.filter l.kept = l.above := List.filter_eq_self.2 fun m _ => by simp [kept, h]
    have ha : l.above.filter (isAbove l.lastTrimSeq) = l.above :=
      List.filter_eq_self.2 fun m hm => (List.mem_filter.1 hm).2
    rw [hk, ha]
    exact List.dropLast_prefix _

/-- **Where the rows come from.** They are rows of the session above the watermark, in order. -/
theorem history_sublist : l.history.Sublist l.transcript.rows :=
  (l.history_prefix.sublist.trans List.filter_sublist).trans List.filter_sublist

theorem history_increasing : l.history.Pairwise (·.seq < ·.seq) := l.transcript.increasing.sublist l.history_sublist

theorem overflow_prefix : l.overflow cfg <+: l.history := by
  unfold overflow history
  split_ifs
  · rw [List.dropLast_eq_take]
    exact List.take_prefix_take_left (min_le_left _ _)
  · exact List.nil_prefix

theorem window_eq : l.window cfg = l.history.drop (l.windowStart cfg) := by
  unfold window history
  split_ifs with h
  · rw [List.dropLast_eq_take, List.dropLast_eq_take, List.length_drop, List.drop_take]
    congr 1
    omega
  · have : l.allMessages.dropLast = [] := by
      rw [← List.length_eq_zero_iff, List.length_dropLast]; omega
    rw [this, List.drop_nil]

theorem window_suffix : l.window cfg <:+ l.history := by
  rw [window_eq]; exact List.drop_suffix _ _

end Loaded

/-! ## Filtered lists -/

/-- a test that stays true from item to item cuts the list in two -/
theorem filter_not_append_filter {α : Type*} {p : α → Bool} {l : List α}
    (h : l.Pairwise fun a b => p a = true → p b = true) : l.filter (fun a => !p a) ++ l.filter p = l := by
  induction l with
  | nil => rfl
  | cons a l ih =>
    obtain ⟨h1, h2⟩ := List.pairwise_cons.1 h
    cases ha : p a with
    | false => simp [ha, ih h2]
    | true =>
      have hall : l.filter p = l := List.filter_eq_self.2 fun x hx => h1 x hx ha
      have hnone : l.filter (fun x => !p x) = [] := List.filter_eq_nil_iff.2 fun x hx => by simp [h1 x hx ha]
      simp [ha, hall, hnone]

/-- neighbours of a filtered list have only left out items between them -/
theorem filter_neighbours {α : Type*} {p : α → Bool} {l x y : List α} {a b : α}
    (h : l.filter p = x ++ a :: b :: y) : ∃ u m v, l = u ++ a :: m ++ b :: v ∧ ∀ z ∈ m, p z = false := by
  obtain ⟨l₁, l₂, rfl, -, h2⟩ := List.filter_eq_append_iff.1 h
  obtain ⟨m₁, m₂, rfl, -, -, h3⟩ := List.filter_eq_cons_iff.1 h2
  obtain ⟨n₁, n₂, rfl, hn, -, -⟩ := List.filter_eq_cons_iff.1 h3
  exact ⟨l₁ ++ m₁, n₁, n₂, by simp, fun z hz => by simpa using hn z hz⟩

/-! ## The conversation as the turn sees it -/

namespace Loaded

variable (l : Loaded) (cfg : Settings)

theorem below_append_above : l.below ++ l.above = l.transcript.rows := by
  refine filter_not_append_filter (l.transcript.increasing.imp fun {a b} hab ha => ?_)
  cases hw : l.lastTrimSeq with
  | none => rfl
  | some w => simp only [isAbove, hw, Option.all_some, decide_eq_true_eq] at ha ⊢; omega

/-- the session's rows without those that the turn leaves out -/
def seen : List StoredMessage := l.transcript.rows.filter fun m => !isAbove l.lastTrimSeq m || l.kept m

theorem seen_eq : l.seen = l.below ++ l.above.filter l.kept := by
  unfold seen
  rw [← below_append_above l, List.filter_append]
  congr 1
  · exact List.filter_eq_self.2 fun m hm => by simp [(List.mem_filter.1 hm).2]
  · exact List.filter_congr fun m hm => by simp [(List.mem_filter.1 hm).2]

theorem overflow_infix : l.overflow cfg <:+: l.seen := by
  rw [seen_eq]
  obtain ⟨b, hb⟩ := (l.overflow_prefix cfg).trans l.history_prefix
  exact ⟨l.below, b, by rw [← hb, List.append_assoc]⟩

theorem lastRows_suffix (n : ℕ) (rows : List StoredMessage) : lastRows n rows <:+ rows := List.drop_suffix _ _

/-- the rows before the window are the ones just before it -/
theorem preceding_suffix : l.preceding cfg <:+ l.below ++ l.history.take (l.windowStart cfg) ∨ l.window cfg = [] := by
  by_cases hwin : l.window cfg = []
  · exact Or.inr hwin
  refine Or.inl ?_
  have htake : l.allMessages.take (l.windowStart cfg) = l.history.take (l.windowStart cfg) := by
    have hlim := cfg.historyLimit_pos
    unfold history windowStart
    rw [List.dropLast_eq_take, List.take_take]
    congr 1
    omega
  have hshort : lastRows precedingLookbackRows (l.history.take (l.windowStart cfg)) <:+
      l.below ++ l.history.take (l.windowStart cfg) :=
    (lastRows_suffix _ _).trans (List.suffix_append _ _)
  unfold preceding
  rw [htake]
  cases hw : l.lastTrimSeq with
  | none => exact hshort
  | some w =>
    simp only
    split_ifs with h
    · -- fewer rows than asked for: all of them, and the last of those below
      have hall : lastRows precedingLookbackRows (l.history.take (l.windowStart cfg)) =
          l.history.take (l.windowStart cfg) := by
        have hlen := h.2.1
        unfold lastRows at hlen ⊢
        rw [List.length_drop] at hlen
        rw [show (l.history.take (l.windowStart cfg)).length - precedingLookbackRows = 0 from by
          simp only [precedingLookbackRows] at hlen ⊢; omega]
        rfl
      have hbelow : l.transcript.rows.filter (·.seq ≤ w) = l.below := by
        unfold below
        refine List.filter_congr fun m _ => ?_
        rcases lt_or_ge w m.seq with h | h <;> simp [isAbove, hw, h, not_le.2, not_lt.2]
      rw [hall, hbelow]
      obtain ⟨t, ht⟩ := lastRows_suffix (precedingLookbackRows - (l.history.take (l.windowStart cfg)).length) l.below
      exact ⟨t, by rw [← List.append_assoc, ht]⟩
    · exact hshort

theorem window_infix (h : l.window cfg ≠ []) : l.preceding cfg ++ l.window cfg <:+: l.seen := by
  obtain ⟨t, ht⟩ := (l.preceding_suffix cfg).resolve_right h
  obtain ⟨u, hu⟩ := l.history_prefix
  refine ⟨t, u, ?_⟩
  rw [seen_eq, window_eq, ← hu]
  calc t ++ (l.preceding cfg ++ l.history.drop (l.windowStart cfg)) ++ u
      = t ++ l.preceding cfg ++ l.history.drop (l.windowStart cfg) ++ u := by simp
    _ = l.below ++ (l.history.take (l.windowStart cfg) ++ l.history.drop (l.windowStart cfg)) ++ u := by rw [ht]; simp
    _ = l.below ++ (l.history ++ u) := by rw [List.take_append_drop, List.append_assoc]

end Loaded

/-! ## Slices -/

section

variable (env : Env)

theorem rendering_append (pre a b : List StoredMessage) :
    rendering env pre (a ++ b) = rendering env pre a ++ rendering env (pre ++ a) b := by
  induction a generalizing pre with
  | nil => simp [rendering]
  | cons m a ih => simp [rendering, ih]

/-- a row renders when it is visible after the row before it -/
theorem mem_rendering {pre rows : List StoredMessage} {r : StoredMessage} :
    r ∈ rendering env pre rows ↔
      ∃ a b, rows = a ++ r :: b ∧ isVisibleRow env r ((pre ++ a).getLast?.any (isApprovalPromptRow env)) = true := by
  induction rows generalizing pre with
  | nil => simp [rendering]
  | cons m rows ih =>
    simp only [rendering, List.mem_append, ih]
    constructor
    · rintro (h | ⟨a, b, rfl, h⟩)
      · split_ifs at h with hv
        · simp only [List.mem_singleton] at h
          subst h
          exact ⟨[], rows, rfl, by simpa using hv⟩
        · simp at h
      · exact ⟨m :: a, b, rfl, by simpa using h⟩
    · rintro ⟨a, b, h, hv⟩
      cases a with
      | nil =>
        simp only [List.nil_append, List.cons.injEq] at h
        obtain ⟨rfl, rfl⟩ := h
        rw [List.append_nil] at hv
        exact Or.inl (by simp [hv])
      | cons x a =>
        simp only [List.cons_append, List.cons.injEq] at h
        obtain ⟨rfl, rfl⟩ := h
        exact Or.inr ⟨a, b, rfl, by simpa using hv⟩

/-- only an inbound row can be hidden by the row before it -/
theorem isVisibleRow_mono {r : StoredMessage} {p q : Bool} (h : isVisibleRow env r p = true)
    (hpq : r.direction = .inbound → q = true → p = true) : isVisibleRow env r q = true := by
  unfold isVisibleRow at h ⊢
  by_cases hd : r.direction = .inbound
  · cases q with
    | false => simp_all
    | true => rw [hpq hd rfl] at h; exact h
  · simpa [hd] using h

/-- **A row renders in every slice.** A row of the conversation that renders there renders in each slice of what the
turn sees: the rows left out are after every inbound row of it. -/
theorem visible_in_slice (l : Loaded) (pre : List StoredMessage) {rows : List StoredMessage} {r : StoredMessage}
    (hinf : pre ++ rows <:+: l.seen) (hr : r ∈ rows) (habove : isAbove l.lastTrimSeq r = true)
    (hv : r ∈ rendering env [] l.transcript.rows) : r ∈ rendering env pre rows := by
  obtain ⟨A, B, hAB, hvis⟩ := (mem_rendering env).1 hv
  rw [List.nil_append] at hvis
  obtain ⟨a, b, rfl⟩ := List.append_of_mem hr
  refine (mem_rendering env).2 ⟨a, b, rfl, isVisibleRow_mono env hvis fun hin hprompt => ?_⟩
  -- the prompt before the row in the slice is the row before it in the conversation
  obtain ⟨p, hp, hpp⟩ : ∃ p, (pre ++ a).getLast? = some p ∧ isApprovalPromptRow env p = true := by
    cases hl : (pre ++ a).getLast? with
    | none => simp [hl] at hprompt
    | some p => exact ⟨p, rfl, by simpa [hl] using hprompt⟩
  obtain ⟨x, hx⟩ := List.getLast?_eq_some_iff.1 hp
  obtain ⟨s, t, hst⟩ := hinf
  have hseen : l.seen = (s ++ x) ++ p :: r :: (b ++ t) := by
    rw [← hst, ← List.append_assoc pre a, hx]; simp
  obtain ⟨u, m, v, hrows, hm⟩ := filter_neighbours hseen
  have hinc := l.transcript.increasing
  have hmlt : ∀ z ∈ m, z.seq < r.seq := fun z hz => by
    rw [hrows] at hinc
    exact (List.pairwise_append.1 hinc).2.2 z (by simp [hz]) r (by simp)
  have hkr : l.kept r = true := by
    have hmem : r ∈ l.seen := by rw [hseen]; simp
    have := (List.mem_filter.1 hmem).2
    simpa [habove] using this
  have hnil : m = [] := by
    refine List.eq_nil_iff_forall_not_mem.2 fun z hz => ?_
    have hz' := hm z hz
    simp only [Loaded.kept, Bool.or_eq_false_iff, Bool.not_eq_false'] at hz' hkr
    obtain ⟨-, hlater, hnot⟩ := hz'
    have hlt := hmlt z hz
    simp only [hlater, Bool.not_true, Bool.false_or, isEarlier, Bool.or_eq_true, decide_eq_true_eq,
      Bool.and_eq_true, hin, reduceCtorEq, and_false, or_false] at hkr
    simp only [isEarlier, Bool.or_eq_false_iff, decide_eq_false_iff_not] at hnot
    omega
  subst hnil
  have hnm : ∀ (c d : List StoredMessage), l.transcript.rows = c ++ r :: d → r ∉ c ∧ r ∉ d := fun c d h => by
    rw [h] at hinc
    obtain ⟨-, h2, h3⟩ := List.pairwise_append.1 hinc
    exact ⟨fun hc => absurd (h3 r hc r (by simp)) (lt_irrefl _),
      fun hd => absurd ((List.pairwise_cons.1 h2).1 r hd) (lt_irrefl _)⟩
  have heq : A ++ r :: B = (u ++ [p]) ++ r :: v := by rw [← hAB, hrows]
  obtain ⟨rfl, -, -⟩ := (List.append_cons_inj_of_notMem (hnm A B hAB).1 (hnm A B hAB).2).1 heq
  simp [hpp]

end

end Clawbolt.History
