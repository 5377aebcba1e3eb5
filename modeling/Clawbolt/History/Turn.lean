/-
One turn of a session, from loading its rows to its last compaction trigger (`load_conversation_history` in
agent/context.py, `EpochHistoryRenderer` in agent/prompt_epoch.py, `_trim_history` and `process_message` in
agent/core.py), with every database call succeeding.

A turn may drop rows four times: the overflow of the window, the cold-start rebuild, the shed, and the plain trim. Each
hands its messages to compaction and moves the watermark to the highest seq it dropped (`Moves`). The renderer compacts
(`compactingTurn`) or not (`plainTurn`); the retry after a context overflow of the provider is left out.

Results:
- `dropsFront_buildHistoryView`, `dropsFront_shedHistoryView`: the renderer drops whole turns, and never the newest;
- `no_row_lost`: a turn loses no row if every row it neither loads nor compacts lies above what it may drop, and in a
  turn without the compacting renderer only then: a prompt that is large enough makes it lose one;
- `queued_row_lost`: a trim drops a reply that was stored after the message of the turn, and the watermark passes the
  message.
-/
import Mathlib.Tactic
import Clawbolt.History.Compaction
import Clawbolt.History.FixedPoint
import Clawbolt.History.Trim
import Clawbolt.History.Window

namespace Clawbolt.History

open Text (Str)

/-! ## Model -/

/-- the database, and the lists of messages handed to `compact_session` -/
structure Outcome where
  db : Db
  handed : List (List AgentMessage)
deriving DecidableEq, Repr

/-- what the history does not determine: the system prompt, the text of the current turn and the known prompt size -/
structure Prompt where
  system : Str
  text : Str
  inputTokens : Option ℕ
deriving DecidableEq, Repr

def Db.setHistoryStubSeq (db : Db) (q : ℕ) : Db :=
  { db with session := db.session.map fun cs => { cs with historyStubSeq := Session.advance cs.historyStubSeq q } }

section

variable (c : Ctx)

/-- a trigger of the turn -/
def Ctx.trigger (o : Outcome) (dropped : List AgentMessage) : Outcome :=
  let (db, handed) := triggerCompactionForDropped c.cfg.compactionEnabled o.db none dropped
  ⟨db, o.handed ++ handed.toList⟩

/-- the overflow of the window; without a message to compact only the watermark moves -/
def Ctx.compactOverflow (o : Outcome) (overflow : List StoredMessage) : Outcome :=
  match overflow.getLast? with
  | none => o
  | some last =>
    let messages := storedMessagesToAgentMessages c.env overflow c.tzName []
    if messages ≠ [] then c.trigger o messages
    else ⟨(advanceTrimWatermarkOnly o.db false last.seq).getD o.db, o.handed⟩

/-- `_compact_dropped` in the turn -/
def Ctx.compactRows (o : Outcome) (rows preceding : List StoredMessage) : Outcome :=
  match compactDropped c.env c.cfg.compactionEnabled true o.db none false rows c.tzName preceding with
  | none => o
  | some (db, handed, _) => ⟨db, o.handed ++ handed.toList⟩

/-- the plain rendering, and the plain trim -/
def Ctx.plainTurn (l : Loaded) (o : Outcome) (p : Prompt) : Outcome :=
  let history := storedMessagesToAgentMessages c.env (l.window c.cfg) c.tzName (l.preceding c.cfg)
  c.trigger o (trimMessages c.env c.cfg (prompt p.system p.text history) p.inputTokens).dropped

/-- the compacting renderer: the rebuild, then the shed when the prompt is over the trigger, else the plain trim -/
def Ctx.compactingTurn (l : Loaded) (stubBefore : Option ℕ) (o : Outcome) (p : Prompt) : Outcome :=
  let view := c.buildHistoryView (l.window c.cfg) l.lastRow true (l.preceding c.cfg) stubBefore
  let o := c.compactRows o view.droppedRows (l.preceding c.cfg)
  let kept := (l.window c.cfg).drop view.droppedRows.length
  let ahead := l.preceding c.cfg ++ view.droppedRows
  let inputTokens := if view.epoch.coldStart then none else p.inputTokens
  let b := TrimBudget.forPrompt c.env c.cfg (prompt p.system p.text view.messages) inputTokens
  match l.lastRow with
  | some current =>
    if b.overTrigger c.env (prompt p.system p.text view.messages) = true ∧ kept ≠ [] then
      let shed := c.shedHistoryView kept current ahead stubBefore
        fun history => b.fits c.env (prompt p.system p.text history)
      c.compactRows ⟨o.db.setHistoryStubSeq shed.stubBefore, o.handed⟩ shed.view.droppedRows ahead
    else c.trigger o (trimMessages c.env c.cfg (prompt p.system p.text view.messages) inputTokens).dropped
  | none => c.trigger o (trimMessages c.env c.cfg (prompt p.system p.text view.messages) inputTokens).dropped

/-- the session row and the events when the turn starts -/
def Loaded.start (l : Loaded) (stubBefore : Option ℕ) (events : List CompactionEvent) : Outcome :=
  ⟨⟨some ⟨l.lastTrimSeq, stubBefore⟩, events⟩, []⟩

/-- a turn -/
def Ctx.turn (l : Loaded) (stubBefore : Option ℕ) (events : List CompactionEvent) (p : Prompt) : Outcome :=
  let o := c.compactOverflow (l.start stubBefore events) (l.overflow c.cfg)
  if c.cfg.coldStartCompactionEnabled then c.compactingTurn l stubBefore o p else c.plainTurn l o p

end

/-! ## What a turn owes its rows -/

/-- a message of the row was handed to compaction -/
def Outcome.Gave (o : Outcome) (q : ℕ) : Prop := ∃ ms ∈ o.handed, ∃ m ∈ ms, m.seq? = some q

/-- every row that renders in the conversation and that the watermark passed was handed over -/
def NoRowLost (env : Env) (l : Loaded) (o : Outcome) : Prop :=
  ∀ r ∈ rendering env [] l.transcript.rows, l.lastTrimSeq.getD 0 < r.seq → r.seq ≤ o.db.watermark → o.Gave r.seq

section

variable (c : Ctx) (l : Loaded)

/-- the seqs that the overflow can move the watermark to -/
def Ctx.overflowReach : List ℕ :=
  let messages := storedMessagesToAgentMessages c.env (l.overflow c.cfg) c.tzName []
  if messages ≠ [] then seqsFromDropped messages else (l.overflow c.cfg).getLast?.toList.map StoredMessage.seq

/-- the seqs that dropping from the window can move the watermark to: of every row that renders, and with the compacting
renderer of the rows before the newest turn -/
def Ctx.windowReach : List ℕ :=
  if c.cfg.coldStartCompactionEnabled then
    ((l.window c.cfg).filter fun m => (l.window c.cfg).any fun y => y.direction = .inbound && m.seq < y.seq).map
      StoredMessage.seq
  else seqsFromDropped (storedMessagesToAgentMessages c.env (l.window c.cfg) c.tzName (l.preceding c.cfg))

/-- the rows above the watermark that are in neither the overflow nor the window lie above what can be dropped -/
def Covered : Prop :=
  ∀ r ∈ rendering c.env [] l.transcript.rows, l.lastTrimSeq.getD 0 < r.seq → r ∉ l.overflow c.cfg → r ∉ l.window c.cfg →
    ∀ q ∈ c.overflowReach l ++ c.windowReach l, q < r.seq

instance : Decidable (Covered c l) := by unfold Covered; infer_instance

end

/-! ## One drop -/

/-- what one drop does: it hands over `seqs`, and moves the watermark into `reach` -/
structure Moves (o o' : Outcome) (seqs reach : List ℕ) : Prop where
  le : o.db.watermark ≤ o'.db.watermark
  moved : o'.db.watermark = o.db.watermark ∨ o'.db.watermark ∈ reach
  gives : ∀ q ∈ seqs, o.db.watermark < q → o'.Gave q
  keeps : ∀ q, o.Gave q → o'.Gave q
  only : ∀ q, o'.Gave q → o.Gave q ∨ q ∈ seqs
  session : o.db.session ≠ none → o'.db.session ≠ none
  reaches : o.db.session ≠ none → ∀ q ∈ reach, q ≤ o'.db.watermark

theorem Moves.refl (o : Outcome) : Moves o o [] [] :=
  ⟨le_rfl, Or.inl rfl, by simp, fun _ h => h, fun _ h => Or.inl h, fun h => h, by simp⟩

/-- a later write of the watermark alone -/
theorem Moves.advance {o o' : Outcome} {seqs reach : List ℕ} (h : Moves o o' seqs reach) (q : ℕ) :
    Moves o ⟨o'.db.advance q, o'.handed⟩ seqs (reach ++ [q]) where
  le := h.le.trans (le_watermark_advance _ _)
  moved := by
    cases hs : o'.db.session with
    | none =>
      rw [watermark_advance_none hs]
      exact h.moved.imp_right fun h => List.mem_append_left _ h
    | some cs =>
      rw [watermark_advance (by simp [hs])]
      rcases le_total q o'.db.watermark with hq | hq
      · rw [max_eq_left hq]
        exact h.moved.imp_right fun h => List.mem_append_left _ h
      · rw [max_eq_right hq]
        exact Or.inr (by simp)
  gives := h.gives
  keeps := h.keeps
  only := h.only
  session := fun hs => by simpa [Db.advance] using h.session hs
  reaches := fun hs x hx => by
    have hw := watermark_advance (h.session hs) q
    rcases List.mem_append.1 hx with hx | hx
    · have := h.reaches hs x hx
      simp only [hw]
      omega
    · simp only [List.mem_singleton] at hx
      subst hx
      simp [hw]

theorem Outcome.gave_append {db : Db} {a b : List (List AgentMessage)} {q : ℕ} :
    Outcome.Gave ⟨db, a ++ b⟩ q ↔ Outcome.Gave ⟨db, a⟩ q ∨ Outcome.Gave ⟨db, b⟩ q := by
  simp [Outcome.Gave, or_and_right, exists_or]

/-- **The spec of a trigger.** It hands over the dropped seqs above the watermark and moves to the highest. -/
theorem trigger_moves (c : Ctx) (hen : c.cfg.compactionEnabled = true) (o : Outcome) (dropped : List AgentMessage) :
    Moves o (c.trigger o dropped) (seqsFromDropped dropped) (seqsFromDropped dropped) := by
  have hdef : c.trigger o dropped = ⟨(triggerCompactionForDropped true o.db none dropped).1,
      o.handed ++ (triggerCompactionForDropped true o.db none dropped).2.toList⟩ := by
    unfold Ctx.trigger; rw [hen]
  rw [hdef]
  refine ⟨?_, ?_, fun q hq hlt => ?_, fun q h => Outcome.gave_append.2 (Or.inl h), fun q h => ?_, fun hs => ?_,
    fun hs q hq => ?_⟩
  · rcases trigger_cases true o.db none dropped with ⟨h, -⟩ | ⟨-, -, lo, hi, -, -, h⟩ <;> rw [h]
    exact le_watermark_advance _ _
  · refine (trigger_watermark o.db dropped).imp_right ?_
    rintro ⟨m, hm, hq⟩
    exact List.mem_filterMap.2 ⟨m, hm, hq⟩
  · obtain ⟨m, hm, hmq⟩ := List.mem_filterMap.1 hq
    obtain ⟨ms, hms, hmem⟩ := mem_handed hm hmq hlt
    exact Outcome.gave_append.2 (Or.inr ⟨ms, by simp [hms], m, hmem, hmq⟩)
  · refine (Outcome.gave_append.1 h).imp id ?_
    rintro ⟨ms, hms, m, hm, hmq⟩
    rcases trigger_cases true o.db none dropped with ⟨h, -⟩ | ⟨-, -, lo, hi, -, -, h⟩
    · simp [h] at hms
    · simp only [h, Option.toList_some, List.mem_singleton] at hms
      subst hms
      refine List.mem_filterMap.2 ⟨m, ?_, hmq⟩
      unfold keptMessages at hm
      split_ifs at hm
      · exact hm
      · exact (List.mem_filter.1 hm).1
  · rcases trigger_cases true o.db none dropped with ⟨h, -⟩ | ⟨-, -, lo, hi, -, -, h⟩ <;> rw [h]
    · exact hs
    · simpa [Db.advance] using hs
  · rcases trigger_cases true o.db none dropped with ⟨h, h' | h' | h'⟩ | ⟨-, -, lo, hi, -, hhi, h⟩
    · exact absurd ⟨rfl, List.ne_nil_of_mem hq⟩ h'
    · rw [h]
      by_contra hlt
      exact h' (Or.inr ⟨q, hq, not_le.1 hlt⟩)
    · rcases h'.2 with h' | h' <;> simp at h'
    · have hw : (triggerCompactionForDropped true o.db none dropped).1.watermark = max o.db.watermark hi := by
        rw [h, ← watermark_advance hs]; rfl
      simp only [hw]
      by_contra hlt
      have hrec := mem_recordedSeqs hq (by omega : o.db.watermark < q)
      have := (List.max?_eq_some_iff.1 hhi).2 q hrec
      omega

theorem overflow_moves (c : Ctx) (hen : c.cfg.compactionEnabled = true) (l : Loaded) (o : Outcome) :
    Moves o (c.compactOverflow o (l.overflow c.cfg))
      (seqsFromDropped (storedMessagesToAgentMessages c.env (l.overflow c.cfg) c.tzName [])) (c.overflowReach l) := by
  unfold Ctx.compactOverflow Ctx.overflowReach
  cases hl : (l.overflow c.cfg).getLast? with
  | none =>
    rw [List.getLast?_eq_none_iff.1 hl]
    simpa [storedMessagesToAgentMessages, seqsFromDropped] using Moves.refl o
  | some last =>
    simp only
    split_ifs with h
    · exact trigger_moves c hen o _
    · rw [not_not.1 h]
      simpa [seqsFromDropped, advanceTrimWatermarkOnly] using (Moves.refl o).advance last.seq

theorem compactRows_moves (c : Ctx) (hen : c.cfg.compactionEnabled = true) (o : Outcome)
    (rows preceding : List StoredMessage) :
    Moves o (c.compactRows o rows preceding)
      (seqsFromDropped (storedMessagesToAgentMessages c.env rows c.tzName preceding))
      (seqsFromDropped (storedMessagesToAgentMessages c.env rows c.tzName preceding) ++
        rows.getLast?.toList.map StoredMessage.seq) := by
  unfold Ctx.compactRows compactDropped
  cases hl : rows.getLast? with
  | none =>
    rw [List.getLast?_eq_none_iff.1 hl]
    simpa [storedMessagesToAgentMessages, seqsFromDropped] using Moves.refl o
  | some last =>
    have h := (trigger_moves c hen o (storedMessagesToAgentMessages c.env rows c.tzName preceding)).advance last.seq
    simp only [Ctx.trigger, hen] at h
    simpa [hen, advanceTrimWatermarkOnly] using h

theorem setHistoryStubSeq_moves (o : Outcome) (q : ℕ) : Moves o ⟨o.db.setHistoryStubSeq q, o.handed⟩ [] [] := by
  have hw : (o.db.setHistoryStubSeq q).watermark = o.db.watermark := by
    cases hs : o.db.session <;> simp [Db.watermark, Db.setHistoryStubSeq, hs]
  exact ⟨hw.ge, Or.inl hw, by simp, fun _ h => h, fun _ h => Or.inl h,
    fun h => by simpa [Db.setHistoryStubSeq] using h, by simp⟩

/-! ## What a rebuild and a shed drop -/

/-- nothing, or rows that an inbound row follows -/
def DropsFront (rows dropped : List StoredMessage) : Prop :=
  dropped <+: rows ∧ (dropped ≠ [] → ∃ y rest, rows = dropped ++ y :: rest ∧ y.direction = .inbound)

theorem DropsFront.nil (rows : List StoredMessage) : DropsFront rows [] := ⟨List.nil_prefix, fun h => absurd rfl h⟩

theorem DropsFront.append_right {rows dropped : List StoredMessage} (h : DropsFront rows dropped)
    (more : List StoredMessage) : DropsFront (rows ++ more) dropped := by
  refine ⟨h.1.trans (List.prefix_append _ _), fun hne => ?_⟩
  obtain ⟨y, rest, rfl, hy⟩ := h.2 hne
  exact ⟨y, rest ++ more, by simp, hy⟩

/-- a drop, and a drop of what it leaves -/
theorem DropsFront.append {rows rest first second : List StoredMessage} (h1 : DropsFront rows first)
    (hrows : first ++ rest = rows) (h2 : DropsFront rest second) : DropsFront rows (first ++ second) := by
  subst hrows
  obtain ⟨u, hu⟩ := h2.1
  refine ⟨⟨u, by rw [List.append_assoc, hu]⟩, fun hne => ?_⟩
  by_cases hs : second = []
  · subst hs
    rw [List.append_nil] at hne ⊢
    exact h1.2 hne
  · obtain ⟨y, rest', rfl, hy⟩ := h2.2 hs
    exact ⟨y, rest', by simp, hy⟩

/-- dropping whole turns, and not the newest -/
theorem dropsFront_groupTurns (rows : List StoredMessage) {start : ℕ} (h : start ≤ (groupTurns rows).length - 1) :
    DropsFront rows ((groupTurns rows).take start).flatten := by
  have hsplit : ((groupTurns rows).take start).flatten ++ ((groupTurns rows).drop start).flatten = rows := by
    rw [← List.flatten_append, List.take_append_drop, flatten_groupTurns]
  refine ⟨⟨_, hsplit⟩, fun hne => ?_⟩
  have hpos : start ≠ 0 := by rintro rfl; simp at hne
  have hlt : start < (groupTurns rows).length := by omega
  have hturns := isTurns_groupTurns rows
  have hmem : (groupTurns rows)[start] ∈ (groupTurns rows).tail := by
    rw [← List.drop_one]
    exact List.mem_drop_iff_getElem.2 ⟨start - 1, by omega, by congr 1; omega⟩
  have hhead := hturns.inbound _ hmem
  cases hg : (groupTurns rows)[start] with
  | nil => simp [hg] at hhead
  | cons y g =>
    refine ⟨y, g ++ ((groupTurns rows).drop (start + 1)).flatten, ?_, by simpa [hg] using hhead⟩
    conv_lhs => rw [← hsplit, List.drop_eq_getElem_cons hlt, hg]
    simp

section

variable (c : Ctx) (rows : List StoredMessage) (preceding : List StoredMessage) (stubBefore : Option ℕ)

theorem dropsFront_buildHistoryView (current : Option StoredMessage) (compact : Bool) :
    DropsFront rows (c.buildHistoryView rows current compact preceding stubBefore).droppedRows := by
  cases current with
  | none => exact DropsFront.nil rows
  | some current =>
    by_cases hp : compact = false ∨ ((findEpoch c.env c.cfg rows current).2 = 0 ∧ stubBefore = none)
    · rw [buildHistoryView_plain c rows current preceding stubBefore hp]
      exact DropsFront.nil rows
    · push Not at hp
      obtain ⟨hc, hs⟩ := hp
      obtain rfl : compact = true := by simpa using hc
      by_cases h0 : (findEpoch c.env c.cfg rows current).2 = 0
      · rw [buildHistoryView_stubbed c rows current preceding stubBefore h0 (hs h0)]
        exact DropsFront.nil rows
      · rw [buildHistoryView_rebuilt c rows current preceding stubBefore h0]
        generalize (findEpoch c.env c.cfg rows current).2 = b
        have hstart := (start_settled c (groupTurns (rows.take b)) (rows.drop b) preceding stubBefore).1
        have h := (dropsFront_groupTurns (rows.take b) hstart).append_right (rows.drop b)
        rwa [List.take_append_drop] at h

theorem dropsFront_shedCandidate (current : StoredMessage) {start : ℕ} (h : start ≤ (groupTurns rows).length - 1)
    (verbatim : ℕ) :
    DropsFront rows (c.shedCandidate rows current preceding stubBefore start verbatim).droppedRows := by
  have hsplit : ((groupTurns rows).take start).flatten ++ ((groupTurns rows).drop start).flatten = rows := by
    rw [← List.flatten_append, List.take_append_drop, flatten_groupTurns]
  exact (dropsFront_groupTurns rows h).append hsplit (dropsFront_buildHistoryView c _
    (preceding ++ ((groupTurns rows).take start).flatten) (some (stubLine current stubBefore (groupTurns rows) verbatim))
    (some current) true)

/-- a candidate with its stub seq -/
def Ctx.candidate (current : StoredMessage) (start verbatim : ℕ) : ShedView :=
  ⟨c.shedCandidate rows current preceding stubBefore start verbatim,
    stubLine current stubBefore (groupTurns rows) verbatim⟩

/-- a widest window is a candidate from its start -/
theorem widestFrom_candidate (current : StoredMessage) (fits : List AgentMessage → Bool) (start verbatim : ℕ)
    {found : ShedView} (h : c.widestFrom rows current preceding stubBefore fits start verbatim = some found) :
    ∃ v, found = c.candidate rows preceding stubBefore current start v := by
  induction verbatim with
  | zero =>
    simp only [Ctx.widestFrom] at h
    split_ifs at h
    exact ⟨0, by rw [← Option.some.inj h]; rfl⟩
  | succ verbatim ih =>
    simp only [Ctx.widestFrom] at h
    split_ifs at h
    · exact ⟨verbatim + 1, by rw [← Option.some.inj h]; rfl⟩
    · exact ih h

theorem fewestDrops_le (current : StoredMessage) (fits : List AgentMessage → Bool) (fuel : ℕ) {low high : ℕ}
    (h : low ≤ high) : c.fewestDrops rows current preceding stubBefore fits fuel low high ≤ high := by
  induction fuel generalizing low high with
  | zero => exact h
  | succ fuel ih =>
    simp only [Ctx.fewestDrops]
    split_ifs with hlt
    · exact (ih (by omega)).trans (by omega)
    · exact ih (by omega)
    · exact h

/-- a shed is a candidate that keeps the newest turn -/
theorem shedHistoryView_candidate (current : StoredMessage) (fits : List AgentMessage → Bool) :
    ∃ start v, start ≤ (groupTurns rows).length - 1 ∧
      c.shedHistoryView rows current preceding stubBefore fits = c.candidate rows preceding stubBefore current start v := by
  unfold Ctx.shedHistoryView
  cases hw : c.widest rows current preceding stubBefore fits 0 with
  | some found =>
    obtain ⟨v, hv⟩ := widestFrom_candidate c rows preceding stubBefore current fits 0 _ hw
    exact ⟨0, v, Nat.zero_le _, hv⟩
  | none =>
    simp only
    split_ifs with hlast
    · have hlow := fewestDrops_le c rows preceding stubBefore current fits ((groupTurns rows).length - 1) hlast
      cases hw' : c.widest rows current preceding stubBefore fits
          (c.fewestDrops rows current preceding stubBefore fits ((groupTurns rows).length - 1) 1
            ((groupTurns rows).length - 1)) with
      | some found =>
        obtain ⟨v, hv⟩ := widestFrom_candidate c rows preceding stubBefore current fits _ _ hw'
        exact ⟨_, v, hlow, hv⟩
      | none => exact ⟨_, 0, hlow, rfl⟩
    · exact ⟨0, 0, Nat.zero_le _, rfl⟩

/-- **A shed keeps the newest turn.** -/
theorem dropsFront_shedHistoryView (current : StoredMessage) (fits : List AgentMessage → Bool) :
    DropsFront rows (c.shedHistoryView rows current preceding stubBefore fits).view.droppedRows := by
  obtain ⟨start, v, hs, heq⟩ := shedHistoryView_candidate c rows preceding stubBefore current fits
  rw [heq]
  exact dropsFront_shedCandidate c rows preceding stubBefore current hs v

/-- no rows render nothing -/
theorem buildHistoryView_nil (current : Option StoredMessage) :
    (c.buildHistoryView [] current true preceding stubBefore).messages = [] := by
  cases current with
  | none => rfl
  | some current =>
    have h0 : (findEpoch c.env c.cfg [] current).2 = 0 :=
      Nat.lt_one_iff.1 (boundary_lt c.env c.cfg ([] ++ [current]) (by simp))
    cases stubBefore with
    | none => rw [buildHistoryView_plain c [] current preceding none (Or.inr ⟨h0, rfl⟩)]; rfl
    | some s => rw [buildHistoryView_stubbed c [] current preceding (some s) h0 (by simp)]; rfl

end

/-! ## The rows of a turn -/

/-- `sessions.last_trim_seq or 0` at the start of the turn -/
theorem start_watermark (l : Loaded) (stubBefore : Option ℕ) (events : List CompactionEvent) :
    (l.start stubBefore events).db.watermark = l.lastTrimSeq.getD 0 := rfl

/-- one more drop loses no row when it hands over every row that it passes -/
theorem NoRowLost.drop {env : Env} {l : Loaded} {o o' : Outcome} {seqs reach : List ℕ} (h : NoRowLost env l o)
    (hm : Moves o o' seqs reach)
    (hcov : ∀ r ∈ rendering env [] l.transcript.rows, l.lastTrimSeq.getD 0 < r.seq → o.db.watermark < r.seq →
      ∀ q ∈ reach, r.seq ≤ q → r.seq ∈ seqs) : NoRowLost env l o' := by
  intro r hr hlt hle
  rcases Nat.lt_or_ge o.db.watermark r.seq with hw | hw
  · rcases hm.moved with he | hmem
    · omega
    · exact hm.gives _ (hcov r hr hlt hw _ hmem hle) hw
  · exact hm.keeps _ (h r hr hlt hw)

/-- nothing dropped, nothing lost -/
theorem NoRowLost.drop_nil {env : Env} {l : Loaded} {o o' : Outcome} (h : NoRowLost env l o) (hm : Moves o o' [] []) :
    NoRowLost env l o' :=
  h.drop hm fun _ _ _ _ _ hq => absurd hq List.not_mem_nil

theorem seqs_front {a b : List AgentMessage} (h : a <+: b) : seqsFromDropped a <+: seqsFromDropped b := by
  obtain ⟨t, rfl⟩ := h
  exact ⟨seqsFromDropped t, by simp [seqsFromDropped]⟩

/-- the messages of rows in order carry their seqs in order -/
theorem seqs_increasing (env : Env) (tzName : Str) (pre : List StoredMessage) {rows : List StoredMessage}
    (h : rows.Pairwise (·.seq < ·.seq)) :
    (seqsFromDropped (storedMessagesToAgentMessages env rows tzName pre)).Pairwise (· ≤ ·) := by
  induction rows generalizing pre with
  | nil => simp [storedMessagesToAgentMessages, seqsFromDropped]
  | cons m rows ih =>
    obtain ⟨h1, h2⟩ := List.pairwise_cons.1 h
    have hone : ∀ q ∈ seqsFromDropped (storedMessagesToAgentMessages env [m] tzName pre), q = m.seq := fun q hq => by
      obtain ⟨r, hr, rfl⟩ := mem_seqsFromDropped.1 hq
      rw [List.mem_singleton.1 (rendering_subset env pre [m] r hr)]
    rw [← List.singleton_append, convert_append, seqsFromDropped, List.filterMap_append, List.pairwise_append]
    refine ⟨List.pairwise_of_forall_mem_list fun a ha b hb => ?_, ih (pre ++ [m]) h2, fun a ha b hb => ?_⟩
    · rw [hone a ha, hone b hb]
    · obtain ⟨r, hr, rfl⟩ := mem_seqsFromDropped.1 hb
      rw [hone a ha]
      exact (h1 r (rendering_subset env _ rows r hr)).le

/-- the front of an increasing list holds every item up to one of its own -/
theorem mem_prefix_of_le {α : Type*} {f : α → ℕ} {front l : List α} (hpre : front <+: l)
    (h : l.Pairwise (fun a b => f a < f b)) {x r : α} (hx : x ∈ front) (hr : r ∈ l) (hle : f r ≤ f x) : r ∈ front := by
  obtain ⟨t, rfl⟩ := hpre
  rcases List.mem_append.1 hr with hr | hr
  · exact hr
  · exact absurd ((List.pairwise_append.1 h).2.2 x hx r hr) (by omega)

section

variable {c : Ctx} {l : Loaded} (stubBefore : Option ℕ) (events : List CompactionEvent)

/-- the rows a turn passes are ones it loaded -/
theorem Covered.loaded (h : Covered c l) {r : StoredMessage} (hr : r ∈ rendering c.env [] l.transcript.rows)
    (hlt : l.lastTrimSeq.getD 0 < r.seq) {q : ℕ} (hq : q ∈ c.overflowReach l ++ c.windowReach l) (hle : r.seq ≤ q) :
    r ∈ l.overflow c.cfg ∨ r ∈ l.window c.cfg := by
  by_contra hcon
  rw [not_or] at hcon
  exact absurd (h r hr hlt hcon.1 hcon.2 q hq) (by omega)

theorem isAbove_of_lt {r : StoredMessage} (h : l.lastTrimSeq.getD 0 < r.seq) : isAbove l.lastTrimSeq r = true := by
  cases hw : l.lastTrimSeq with
  | none => rfl
  | some w => simpa [isAbove, hw] using h

/-- a row of the overflow that renders is handed over with it -/
theorem mem_overflow_seqs {r : StoredMessage} (hr : r ∈ rendering c.env [] l.transcript.rows)
    (hlt : l.lastTrimSeq.getD 0 < r.seq) (hmem : r ∈ l.overflow c.cfg) :
    r.seq ∈ seqsFromDropped (storedMessagesToAgentMessages c.env (l.overflow c.cfg) c.tzName []) :=
  mem_seqsFromDropped.2 ⟨r, visible_in_slice c.env l [] (l.overflow_infix c.cfg) hmem (isAbove_of_lt hlt) hr, rfl⟩

theorem exists_of_mem_overflowReach {q : ℕ} (h : q ∈ c.overflowReach l) : ∃ x ∈ l.overflow c.cfg, x.seq = q := by
  unfold Ctx.overflowReach at h
  simp only at h
  split_ifs at h
  · obtain ⟨r, hr, hq⟩ := mem_seqsFromDropped.1 h
    exact ⟨r, rendering_subset c.env [] _ r hr, hq⟩
  · obtain ⟨r, hr, hq⟩ := List.mem_map.1 h
    exact ⟨r, List.mem_of_getLast? (Option.mem_toList.1 hr), hq⟩

/-- **The overflow loses no row.** -/
theorem overflow_noRowLost (hen : c.cfg.compactionEnabled = true) (h : Covered c l) :
    NoRowLost c.env l (c.compactOverflow (l.start stubBefore events) (l.overflow c.cfg)) := by
  have h0 : NoRowLost c.env l (l.start stubBefore events) := fun r _ h1 h2 => by
    rw [start_watermark] at h2
    omega
  refine h0.drop (overflow_moves c hen l _) fun r hr hlt _ q hq hle => ?_
  obtain ⟨x, hx, rfl⟩ := exists_of_mem_overflowReach hq
  refine mem_overflow_seqs hr hlt ?_
  rcases h.loaded hr hlt (List.mem_append_left _ hq) hle with hmem | hmem
  · exact hmem
  · -- a row of the window up to a row of the overflow is in the overflow
    exact mem_prefix_of_le (f := StoredMessage.seq) (l.overflow_prefix c.cfg) l.history_increasing hx
      ((l.window_suffix c.cfg).subset hmem) hle

/-- after the overflow, the rows a turn passes are in its window -/
theorem mem_window_of_passed (hen : c.cfg.compactionEnabled = true) (h : Covered c l) {r : StoredMessage}
    (hr : r ∈ rendering c.env [] l.transcript.rows) (hlt : l.lastTrimSeq.getD 0 < r.seq)
    (hw : (c.compactOverflow (l.start stubBefore events) (l.overflow c.cfg)).db.watermark < r.seq) {q : ℕ}
    (hq : q ∈ c.windowReach l) (hle : r.seq ≤ q) : r ∈ l.window c.cfg := by
  rcases h.loaded hr hlt (List.mem_append_right _ hq) hle with hmem | hmem
  · have hseq := mem_overflow_seqs hr hlt hmem
    have hreach : r.seq ∈ c.overflowReach l := by
      unfold Ctx.overflowReach
      simp only
      split_ifs with hne
      · exact hseq
      · rw [not_not.1 hne] at hseq
        simp [seqsFromDropped] at hseq
    have := (overflow_moves c hen l (l.start stubBefore events)).reaches (by simp [Loaded.start]) _ hreach
    omega
  · exact hmem

/-- a row that renders is handed over with the rows it is dropped with -/
theorem mem_dropped_seqs {r : StoredMessage} (before : List StoredMessage) {dropped : List StoredMessage}
    (hr : r ∈ rendering c.env [] l.transcript.rows) (hlt : l.lastTrimSeq.getD 0 < r.seq) (hmem : r ∈ dropped)
    (hpre : before ++ dropped <+: l.window c.cfg) :
    r.seq ∈ seqsFromDropped (storedMessagesToAgentMessages c.env dropped c.tzName (l.preceding c.cfg ++ before)) := by
  obtain ⟨t, ht⟩ := hpre
  have hne : l.window c.cfg ≠ [] := by
    rw [← ht]
    exact List.ne_nil_of_mem (List.mem_append_left _ (List.mem_append_right _ hmem))
  have hinf : (l.preceding c.cfg ++ before) ++ dropped <:+: l.seen := by
    refine List.IsInfix.trans ?_ (l.window_infix c.cfg hne)
    exact (List.prefix_append _ t).isInfix.trans (by rw [← ht]; simp)
  exact mem_seqsFromDropped.2 ⟨r, visible_in_slice c.env l _ hinf hmem (isAbove_of_lt hlt) hr, rfl⟩

theorem window_increasing : (l.window c.cfg).Pairwise (·.seq < ·.seq) :=
  l.history_increasing.sublist (l.window_suffix c.cfg).sublist

/-- **The plain turn loses no row.** -/
theorem plainTurn_noRowLost (hen : c.cfg.compactionEnabled = true) (hmode : c.cfg.coldStartCompactionEnabled = false)
    (h : Covered c l) (p : Prompt) :
    NoRowLost c.env l (c.plainTurn l (c.compactOverflow (l.start stubBefore events) (l.overflow c.cfg)) p) := by
  set history := storedMessagesToAgentMessages c.env (l.window c.cfg) c.tzName (l.preceding c.cfg) with hh
  have hreach : c.windowReach l = seqsFromDropped history := by
    unfold Ctx.windowReach
    rw [if_neg (by simp [hmode])]
  have hfront := seqs_front (trim_dropped_history c.env c.cfg p.system p.text history p.inputTokens)
  refine (overflow_noRowLost stubBefore events hen h).drop (trigger_moves c hen _ _) fun r hr hlt hw q hq hle => ?_
  have hmem := mem_window_of_passed stubBefore events hen h hr hlt hw (by rw [hreach]; exact hfront.subset hq) hle
  have hseq : r.seq ∈ seqsFromDropped history := by
    have := mem_dropped_seqs [] hr hlt hmem List.prefix_rfl
    rwa [List.append_nil] at this
  -- the dropped messages are the front of the history, in seq order
  obtain ⟨t, ht⟩ := hfront
  have hinc := seqs_increasing c.env c.tzName (l.preceding c.cfg) (window_increasing (c := c) (l := l))
  rw [← hh, ← ht] at hinc
  rw [← ht] at hseq
  rcases List.mem_append.1 hseq with hseq | hseq
  · exact hseq
  · have := (List.pairwise_append.1 hinc).2.2 q hq _ hseq
    rwa [le_antisymm hle this]

/-- the rows that a front drop passes are in its reach -/
theorem mem_windowReach (hmode : c.cfg.coldStartCompactionEnabled = true) {dropped : List StoredMessage}
    (hd : DropsFront (l.window c.cfg) dropped) {x : StoredMessage} (hx : x ∈ dropped) : x.seq ∈ c.windowReach l := by
  obtain ⟨y, rest, heq, hy⟩ := hd.2 (List.ne_nil_of_mem hx)
  have hinc := window_increasing (c := c) (l := l)
  unfold Ctx.windowReach
  rw [if_pos hmode]
  refine List.mem_map_of_mem (List.mem_filter.2 ⟨hd.1.subset hx, List.any_eq_true.2 ⟨y, by rw [heq]; simp, ?_⟩⟩)
  rw [heq] at hinc
  simpa [hy] using (List.pairwise_append.1 hinc).2.2 x hx y List.mem_cons_self

/-- what a drop of rows can move the watermark to -/
theorem exists_of_mem_rowsReach {dropped preceding : List StoredMessage} {q : ℕ}
    (h : q ∈ seqsFromDropped (storedMessagesToAgentMessages c.env dropped c.tzName preceding) ++
      dropped.getLast?.toList.map StoredMessage.seq) : ∃ x ∈ dropped, x.seq = q := by
  rcases List.mem_append.1 h with h | h
  · obtain ⟨r, hr, hq⟩ := mem_seqsFromDropped.1 h
    exact ⟨r, rendering_subset c.env _ _ r hr, hq⟩
  · obtain ⟨r, hr, hq⟩ := List.mem_map.1 h
    exact ⟨r, List.mem_of_getLast? (Option.mem_toList.1 hr), hq⟩

/-- **A drop of the renderer loses no row.** It follows a drop of the rows before it, which the watermark has passed. -/
theorem compactRows_noRowLost (before : List StoredMessage) (hen : c.cfg.compactionEnabled = true)
    (hmode : c.cfg.coldStartCompactionEnabled = true) (h : Covered c l) {o : Outcome} (ho : NoRowLost c.env l o)
    (hpast : (c.compactOverflow (l.start stubBefore events) (l.overflow c.cfg)).db.watermark ≤ o.db.watermark)
    {dropped : List StoredMessage} (hd : DropsFront (l.window c.cfg) (before ++ dropped))
    (hbefore : ∀ x ∈ before, x.seq ≤ o.db.watermark) :
    NoRowLost c.env l (c.compactRows o dropped (l.preceding c.cfg ++ before)) := by
  refine ho.drop (compactRows_moves c hen o dropped _) fun r hr hlt hw q hq hle => ?_
  obtain ⟨x, hx, rfl⟩ := exists_of_mem_rowsReach hq
  have hmem := mem_window_of_passed stubBefore events hen h hr hlt (lt_of_le_of_lt hpast hw)
    (mem_windowReach hmode hd (List.mem_append_right before hx)) hle
  have hfront := mem_prefix_of_le (f := StoredMessage.seq) hd.1 (window_increasing (c := c) (l := l))
    (List.mem_append_right before hx) hmem hle
  rcases List.mem_append.1 hfront with hb | hb
  · exact absurd (hbefore r hb) (by omega)
  · exact mem_dropped_seqs before hr hlt hb hd.1

/-- the front of increasing rows is at or below its last row -/
theorem le_of_getLast? {rows : List StoredMessage} (h : rows.Pairwise (·.seq < ·.seq)) {last : StoredMessage}
    (hl : rows.getLast? = some last) : ∀ x ∈ rows, x.seq ≤ last.seq := by
  obtain ⟨init, rfl⟩ := List.getLast?_eq_some_iff.1 hl
  intro x hx
  rcases List.mem_append.1 hx with hx | hx
  · exact ((List.pairwise_append.1 h).2.2 x hx last (by simp)).le
  · rw [List.mem_singleton.1 hx]

/-- **The compacting turn loses no row.** -/
theorem compactingTurn_noRowLost (hen : c.cfg.compactionEnabled = true)
    (hmode : c.cfg.coldStartCompactionEnabled = true) (h : Covered c l) (p : Prompt) :
    NoRowLost c.env l
      (c.compactingTurn l stubBefore (c.compactOverflow (l.start stubBefore events) (l.overflow c.cfg)) p) := by
  have h0 := overflow_noRowLost stubBefore events hen h
  have hs0 := (overflow_moves c hen l (l.start stubBefore events)).session (by simp [Loaded.start])
  unfold Ctx.compactingTurn
  simp only
  set o := c.compactOverflow (l.start stubBefore events) (l.overflow c.cfg)
  set view := c.buildHistoryView (l.window c.cfg) l.lastRow true (l.preceding c.cfg) stubBefore with hview
  have hd : DropsFront (l.window c.cfg) view.droppedRows :=
    dropsFront_buildHistoryView c (l.window c.cfg) (l.preceding c.cfg) stubBefore l.lastRow true
  have h1 : NoRowLost c.env l (c.compactRows o view.droppedRows (l.preceding c.cfg)) := by
    have := compactRows_noRowLost stubBefore events [] hen hmode h h0 le_rfl hd (by simp)
    rwa [List.append_nil] at this
  have hm := compactRows_moves c hen o view.droppedRows (l.preceding c.cfg)
  -- a trim after the rebuild that does not fire drops nothing
  have htrim : ∀ inputTokens,
      (TrimBudget.forPrompt c.env c.cfg (prompt p.system p.text view.messages) inputTokens).overTrigger c.env
          (prompt p.system p.text view.messages) = false →
        NoRowLost c.env l (c.trigger (c.compactRows o view.droppedRows (l.preceding c.cfg))
          (trimMessages c.env c.cfg (prompt p.system p.text view.messages) inputTokens).dropped) := by
    intro inputTokens hover
    refine h1.drop_nil ?_
    rcases trim_cases c.env c.cfg p.system p.text view.messages inputTokens with ⟨-, hnil⟩ | ⟨htrue, -⟩
    · rw [hnil]; exact trigger_moves c hen _ []
    · exact absurd htrue (by simp [hover])
  -- without rows to shed the prompt has no history
  have hempty : l.window c.cfg = [] → ∀ inputTokens,
      (TrimBudget.forPrompt c.env c.cfg (prompt p.system p.text view.messages) inputTokens).overTrigger c.env
          (prompt p.system p.text view.messages) = false := by
    intro hw inputTokens
    have hnil : view.messages = [] := by rw [hview, hw]; exact buildHistoryView_nil c (l.preceding c.cfg) stubBefore _
    rw [hnil]
    rfl
  cases hlast : l.lastRow with
  | none =>
    refine htrim _ (hempty ?_ _)
    have : l.allMessages = [] := List.getLast?_eq_none_iff.1 hlast
    simp [Loaded.window, this]
  | some current =>
    simp only
    generalize (if view.epoch.coldStart = true then none else p.inputTokens) = inputTokens
    split_ifs with hshed
    · -- the shed drops rows behind those of the rebuild
      refine compactRows_noRowLost stubBefore events view.droppedRows hen hmode h (h1.drop_nil ?_) ?_ ?_ ?_
      · exact setHistoryStubSeq_moves _ _
      · exact hm.le.trans (setHistoryStubSeq_moves (c.compactRows o view.droppedRows (l.preceding c.cfg)) _).le
      · refine hd.append ?_ (dropsFront_shedHistoryView c ((l.window c.cfg).drop view.droppedRows.length) _ _ current _)
        obtain ⟨t, ht⟩ := hd.1
        rw [← ht, List.drop_left]
      · intro x hx
        have hsorted : view.droppedRows.Pairwise (·.seq < ·.seq) :=
          (window_increasing (c := c) (l := l)).sublist hd.1.sublist
        obtain ⟨last, hl⟩ := Option.ne_none_iff_exists'.1 (mt List.getLast?_eq_none_iff.1 (List.ne_nil_of_mem hx))
        have h2 := hm.reaches hs0 last.seq (List.mem_append_right _ (by simp [hl]))
        have h3 := le_of_getLast? hsorted hl x hx
        exact (h3.trans h2).trans
          (setHistoryStubSeq_moves (c.compactRows o view.droppedRows (l.preceding c.cfg)) _).le
    · rw [not_and_or, not_not] at hshed
      rcases hshed with hover | hkept
      · exact htrim _ (by simpa using hover)
      · refine htrim _ (hempty ?_ _)
        -- nothing is left only of an empty window
        by_contra hne
        by_cases hnil : view.droppedRows = []
        · rw [hnil] at hkept
          exact hne (by simpa using hkept)
        · obtain ⟨y, rest, heq, -⟩ := hd.2 hnil
          rw [heq, List.drop_left] at hkept
          simp at hkept

theorem turn_noRowLost (hen : c.cfg.compactionEnabled = true) (h : Covered c l) (p : Prompt) :
    NoRowLost c.env l (c.turn l stubBefore events p) := by
  unfold Ctx.turn
  simp only
  split_ifs with hmode
  · exact compactingTurn_noRowLost stubBefore events hen hmode h p
  · exact plainTurn_noRowLost stubBefore events hen (by simpa using hmode) h p

/-! ## The converse -/

/-- the plain turn hands over nothing but rows of its overflow and its window -/
theorem plainTurn_gave (hen : c.cfg.compactionEnabled = true) {p : Prompt} {q : ℕ}
    (h : (c.plainTurn l (c.compactOverflow (l.start stubBefore events) (l.overflow c.cfg)) p).Gave q) :
    ∃ x, (x ∈ l.overflow c.cfg ∨ x ∈ l.window c.cfg) ∧ x.seq = q := by
  rcases (trigger_moves c hen _ _).only q h with h | h
  · rcases (overflow_moves c hen l _).only q h with h | h
    · simp [Outcome.Gave, Loaded.start] at h
    · obtain ⟨r, hr, hq⟩ := mem_seqsFromDropped.1 h
      exact ⟨r, Or.inl (rendering_subset c.env [] _ r hr), hq⟩
  · have hh := (seqs_front (trim_dropped_history c.env c.cfg p.system p.text _ p.inputTokens)).subset h
    obtain ⟨r, hr, hq⟩ := mem_seqsFromDropped.1 hh
    exact ⟨r, Or.inr (rendering_subset c.env _ _ r hr), hq⟩

/-- some prompt moves the watermark of the plain turn to each seq of its reach -/
theorem exists_plainTurn_reaches (hen : c.cfg.compactionEnabled = true)
    (hmode : c.cfg.coldStartCompactionEnabled = false) {q : ℕ} (hq : q ∈ c.overflowReach l ++ c.windowReach l) :
    ∃ p, q ≤ (c.plainTurn l (c.compactOverflow (l.start stubBefore events) (l.overflow c.cfg)) p).db.watermark := by
  have hm := overflow_moves c hen l (l.start stubBefore events)
  have hs : (l.start stubBefore events).db.session ≠ none := by simp [Loaded.start]
  rcases List.mem_append.1 hq with hq | hq
  · exact ⟨⟨[], [], none⟩, (hm.reaches hs q hq).trans (trigger_moves c hen _ _).le⟩
  · unfold Ctx.windowReach at hq
    rw [if_neg (by simp [hmode])] at hq
    have hne : storedMessagesToAgentMessages c.env (l.window c.cfg) c.tzName (l.preceding c.cfg) ≠ [] := by
      intro hnil
      rw [hnil] at hq
      simp [seqsFromDropped] at hq
    obtain ⟨n, hn⟩ := trim_all c.env c.cfg "s".toList [] _ (by decide) hne
    refine ⟨⟨"s".toList, [], some n⟩, (trigger_moves c hen _ _).reaches (hm.session hs) q ?_⟩
    simp only
    rwa [hn]

/-- **No row is lost.** A turn of a session loses no row, whatever its prompt, when every rendering row above the
watermark that is in neither the overflow nor the window lies above what the turn may drop. Without the compacting
renderer, only then. -/
theorem no_row_lost (c : Ctx) (l : Loaded) (stubBefore : Option ℕ) (events : List CompactionEvent)
    (hen : c.cfg.compactionEnabled = true) :
    (Covered c l → ∀ p, NoRowLost c.env l (c.turn l stubBefore events p)) ∧
      (c.cfg.coldStartCompactionEnabled = false →
        (∀ p, NoRowLost c.env l (c.turn l stubBefore events p)) → Covered c l) := by
  refine ⟨fun h p => turn_noRowLost stubBefore events hen h p, fun hmode hall r hr hlt hov hwin q hq => ?_⟩
  by_contra hcon
  obtain ⟨p, hp⟩ := exists_plainTurn_reaches stubBefore events hen hmode hq
  have hturn : c.turn l stubBefore events p =
      c.plainTurn l (c.compactOverflow (l.start stubBefore events) (l.overflow c.cfg)) p := by
    unfold Ctx.turn
    simp [hmode]
  have hgave := hall p r hr hlt (by rw [hturn]; omega)
  rw [hturn] at hgave
  obtain ⟨x, hx, hxr⟩ := plainTurn_gave stubBefore events hen hgave
  -- seqs are unique in a session, so the row that was handed over is this one
  have hmem : x ∈ l.transcript.rows := by
    rcases hx with hx | hx
    · exact l.history_sublist.subset ((l.overflow_prefix c.cfg).subset hx)
    · exact l.history_sublist.subset ((l.window_suffix c.cfg).subset hx)
  have hxr' : x = r := by
    rcases List.pairwise_iff_getElem.1 l.transcript.increasing with hinc
    obtain ⟨i, hi, rfl⟩ := List.getElem_of_mem hmem
    obtain ⟨j, hj, rfl⟩ := List.getElem_of_mem (rendering_subset c.env [] _ r hr)
    rcases lt_trichotomy i j with hij | rfl | hij
    · exact absurd (hinc i j hi hj hij) (by omega)
    · rfl
    · exact absurd (hinc j i hj hi hij) (by omega)
  subst hxr'
  rcases hx with hx | hx
  · exact hov hx
  · exact hwin hx

end

/-- the reply to message 1 is stored after message 2, which waited on the user lock -/
def queuedRows : List StoredMessage :=
  [⟨.inbound, "add a client".toList, [], [], [], [], 1⟩, ⟨.inbound, "email the crew".toList, [], [], [], [], 2⟩,
    ⟨.outbound, "added".toList, [], [], [], [], 3⟩]

/-- the turn of message 2 -/
def queuedTurn : Loaded :=
  ⟨⟨queuedRows, by decide⟩, none, ⟨.inbound, "email the crew".toList, [], [], [], [], 2⟩⟩

def defaultCtx : Ctx := ⟨sampleEnv [] [], Settings.default, [], []⟩

/-- a prompt that is mostly the current turn, over the trigger -/
def largePrompt : Prompt := ⟨"You are Clawbolt.".toList, List.replicate 200 'a', some 180000⟩

set_option maxRecDepth 20000 in
/-- the trim drops rows 1 and 3, and the watermark passes row 2, which no trigger hands over -/
theorem queued_row_lost :
    (defaultCtx.turn queuedTurn none [] largePrompt).db.watermark = 3 ∧
      (defaultCtx.turn queuedTurn none [] largePrompt).handed =
        [[.user "add a client".toList (some 1), .assistant (some "added".toList) [] (some 3)]] ∧
      ¬ NoRowLost defaultCtx.env queuedTurn (defaultCtx.turn queuedTurn none [] largePrompt) := by
  have hw : (defaultCtx.turn queuedTurn none [] largePrompt).db.watermark = 3 := by decide
  have hh : (defaultCtx.turn queuedTurn none [] largePrompt).handed =
      [[.user "add a client".toList (some 1), .assistant (some "added".toList) [] (some 3)]] := by decide
  refine ⟨hw, hh, fun h => ?_⟩
  have hr : (⟨.inbound, "email the crew".toList, [], [], [], [], 2⟩ : StoredMessage) ∈
      rendering defaultCtx.env [] queuedTurn.transcript.rows := by decide
  obtain ⟨ms, hms, m, hm, hq⟩ := h _ hr (by decide) (by rw [hw]; decide)
  rw [hh, List.mem_singleton] at hms
  subst hms
  simp only [List.mem_cons, List.not_mem_nil, or_false] at hm
  rcases hm with rfl | rfl <;> simp [AgentMessage.seq?] at hq

/-- the same messages, when the second arrives after the reply -/
def orderedTurn : Loaded :=
  ⟨⟨[⟨.inbound, "add a client".toList, [], [], [], [], 1⟩, ⟨.outbound, "added".toList, [], [], [], [], 2⟩,
      ⟨.inbound, "email the crew".toList, [], [], [], [], 3⟩], by decide⟩, none,
    ⟨.inbound, "email the crew".toList, [], [], [], [], 3⟩⟩

/-- `no_row_lost` where nothing was queued, at the default settings -/
theorem no_row_lost_in_order :
    defaultCtx.cfg.compactionEnabled = true ∧ Covered defaultCtx orderedTurn ∧
      ∀ p, NoRowLost defaultCtx.env orderedTurn (defaultCtx.turn orderedTurn none [] p) :=
  ⟨rfl, by decide, (no_row_lost defaultCtx orderedTurn none [] rfl).1 (by decide)⟩

end Clawbolt.History
