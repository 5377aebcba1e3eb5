/-
Write results in a rebuilt history.

A result's call is looked up by its id in the calls seen so far, and the calls of a row are all entered before its first
result is reached. So a result is classified as the last call of its own row that has its id. Ids come from providers and
default to the empty string: where a row repeats an id, a write can be classified as a later read, and its result stubbed.

`Shadowed` is such a row: a write with a long result, and a read after it with the same id.

Results, for every list of rows, tool table, settings, current row, stub seq and shed candidate:
- `shape_kept`: the messages are the plain rendering's of the kept rows, position by position, with the same kind, ids,
  calls, seqs and error flags; only the contents of results differ;
- `write_results_kept`: write results differ from the stored ones at most by a removed SKILL.md block, in all of them, if
  and only if no row has a shadowed write;
- `repeated_id_stubbed`: a row whose write and read both have the empty id.
-/
import Mathlib.Tactic
import Clawbolt.History.FixedPoint

namespace Clawbolt.History

open Text (Str)

/-! ## Results and the calls they came from -/

/-- the stored interactions that a row renders -/
def rowInteractions (env : Env) (row : StoredMessage) : List StoredToolInteraction :=
  if row.direction = .inbound then [] else parseToolInteractions env row.toolInteractionsJson

/-- the messages of a row, each result with its own stored interaction -/
def annotateRow (env : Env) (tzName : Str) (c : Carry) (row : StoredMessage) :
    List (AgentMessage × Option StoredToolInteraction) :=
  (convertRow env tzName c row).1.zip (none :: (rowInteractions env row).map some ++ [none])

def annotator (env : Env) (tzName : Str) : Passes.Pass Carry StoredMessage (AgentMessage × Option StoredToolInteraction) :=
  ⟨annotateRow env tzName, (converter env tzName).next⟩

/-- the plain rendering, each result with its own stored interaction -/
def annotated (env : Env) (rows : List StoredMessage) (tzName : Str) (preceding : List StoredMessage) :
    List (AgentMessage × Option StoredToolInteraction) :=
  (annotator env tzName).out (stateAfter env preceding) rows

/-- `m'` is `m`, up to the content of a result -/
def SameShape (m m' : AgentMessage) : Prop :=
  match m with
  | .toolResult id _ isError => ∃ content, m' = .toolResult id content isError
  | _ => m' = m

/-- a write result is sent as stored, or without its guidance -/
def WriteKept (toolsByName : Dict Tool) (x : AgentMessage × Option StoredToolInteraction) (m' : AgentMessage) : Prop :=
  ∀ tc ∈ x.2, isWrite toolsByName tc.name tc.args = true →
    m' = .toolResult tc.toolCallId tc.result false ∨ m' = .toolResult tc.toolCallId (stripSkillGuidance tc.result) false

/-- the rows a view keeps, rendered with the shape of the plain rendering -/
def ShapeKept (c : Ctx) (rows preceding : List StoredMessage) (v : HistoryView) : Prop :=
  ∃ kept, rows = v.droppedRows ++ kept ∧
    List.Forall₂ SameShape (storedMessagesToAgentMessages c.env kept c.tzName (preceding ++ v.droppedRows)) v.messages

/-- the rows a view keeps, rendered with their write results -/
def WritesKept (c : Ctx) (rows preceding : List StoredMessage) (v : HistoryView) : Prop :=
  ∃ kept, rows = v.droppedRows ++ kept ∧
    List.Forall₂ (WriteKept c.toolsByName) (annotated c.env kept c.tzName (preceding ++ v.droppedRows)) v.messages

/-- the last call of a row with an id -/
def lastCall (tcs : List StoredToolInteraction) (id : Str) : Option StoredToolInteraction :=
  tcs.reverse.find? fun tc => tc.toolCallId = id

/-- a write of the row that is classified as a read, with a result long enough to be stubbed -/
def Shadowed (env : Env) (toolsByName : Dict Tool) (row : StoredMessage) : Prop :=
  ∃ tc ∈ rowInteractions env row, isWrite toolsByName tc.name tc.args = true ∧
    ∃ last ∈ lastCall (rowInteractions env row) tc.toolCallId, isWrite toolsByName last.name last.args = false ∧
      elideMinChars < (stripSkillGuidance tc.result).length ∧
      -- a result that is its own stub loses nothing
      elidedResultStub last.name (stripSkillGuidance tc.result).length ∉ [tc.result, stripSkillGuidance tc.result]

instance (env : Env) (toolsByName : Dict Tool) (row : StoredMessage) : Decidable (Shadowed env toolsByName row) := by
  unfold Shadowed; infer_instance

/-! ## One row -/

/-- the call message of a row -/
def callMessage (tcs : List StoredToolInteraction) (seq : ℕ) : AgentMessage :=
  .assistant none (tcs.map fun tc => ⟨tc.toolCallId, tc.name, tc.args⟩) (some seq)

/-- the content that is sent for a result -/
def RenderArgs.resultText (p : RenderArgs) (s : RenderState) (tc : StoredToolInteraction) : Str :=
  if p.old s then (p.elide s tc.toolCallId tc.result).1 else tc.result

section

variable (p : RenderArgs)

theorem see_calls (s : RenderState) (tcs : List StoredToolInteraction) (seq : ℕ) (id : Str) :
    (p.see s (callMessage tcs seq)).calls.lookup id =
      ((lastCall tcs id).map fun tc => (tc.name, tc.args)).or (s.calls.lookup id) := by
  have h := Dict.lookup_foldl_set StoredToolInteraction.toolCallId (fun tc => (tc.name, tc.args)) tcs s.calls id
  simpa [RenderArgs.see, callMessage, AgentMessage.seq?, lastCall, List.foldl_map] using h

theorem rendered_result (s : RenderState) (tc : StoredToolInteraction) :
    (p.rendered s (.toolResult tc.toolCallId tc.result false)).message =
      .toolResult tc.toolCallId (p.resultText s tc) false := by
  unfold RenderArgs.rendered RenderArgs.resultText
  split_ifs <;> rfl

/-- the results of a row are read in the state its call message leaves -/
theorem out_results (s : RenderState) (tcs : List StoredToolInteraction) (ms : List AgentMessage) :
    (p.renderPass.out s (tcs.map (fun tc => AgentMessage.toolResult tc.toolCallId tc.result false) ++ ms)).map
        Rendered.message =
      tcs.map (fun tc => AgentMessage.toolResult tc.toolCallId (p.resultText s tc) false) ++
        (p.renderPass.out s ms).map Rendered.message := by
  induction tcs with
  | nil => rfl
  | cons tc tcs ih =>
    have hsee : p.renderPass.next s (.toolResult tc.toolCallId tc.result false) = s := rfl
    have hemit : (p.renderPass.emit s (.toolResult tc.toolCallId tc.result false)).map Rendered.message =
        [.toolResult tc.toolCallId (p.resultText s tc) false] := by
      rw [← rendered_result]; rfl
    simp only [List.map_cons, List.cons_append, Passes.Pass.out_cons, hsee, List.map_append, hemit, ih, List.nil_append]

/-- **The rendering of a row with tool calls.** -/
theorem out_expand (s : RenderState) (tcs : List StoredToolInteraction) (text : Str) (seq : ℕ) :
    (p.renderPass.out s (expandOutboundWithTools tcs text (some seq))).map Rendered.message =
      callMessage tcs seq ::
        (tcs.map (fun tc => AgentMessage.toolResult tc.toolCallId (p.resultText (p.see s (callMessage tcs seq)) tc) false) ++
          [.assistant (some text) [] (some seq)]) := by
  have h := out_results p (p.see s (callMessage tcs seq)) tcs [.assistant (some text) [] (some seq)]
  have hexp : expandOutboundWithTools tcs text (some seq) = callMessage tcs seq ::
      (tcs.map (fun tc => AgentMessage.toolResult tc.toolCallId tc.result false) ++
        [.assistant (some text) [] (some seq)]) := rfl
  rw [hexp, Passes.Pass.out_cons, List.map_append]
  exact congrArg (callMessage tcs seq :: ·) h

/-- what is sent for an old result of the row: it is classified as the last call with its id -/
theorem resultText_eq {s : RenderState} {tcs : List StoredToolInteraction} {tc last : StoredToolInteraction} {seq : ℕ}
    (hlast : lastCall tcs tc.toolCallId = some last) :
    p.resultText (p.see s (callMessage tcs seq)) tc =
      if p.old (p.see s (callMessage tcs seq)) then
        if elideMinChars < (stripSkillGuidance tc.result).length ∧ isWrite p.toolsByName last.name last.args = false then
          elidedResultStub last.name (stripSkillGuidance tc.result).length
        else stripSkillGuidance tc.result
      else tc.result := by
  unfold RenderArgs.resultText RenderArgs.elide
  rw [see_calls, hlast]
  simp only [Option.map_some, Option.some_or]
  split_ifs <;> rfl

theorem exists_lastCall {tcs : List StoredToolInteraction} {tc : StoredToolInteraction} (h : tc ∈ tcs) :
    ∃ last, lastCall tcs tc.toolCallId = some last := by
  cases hl : lastCall tcs tc.toolCallId with
  | some last => exact ⟨last, rfl⟩
  | none => exact absurd (List.find?_eq_none.1 hl tc (List.mem_reverse.2 h)) (by simp)

theorem sameShape_rendered (s : RenderState) (m : AgentMessage) : SameShape m (p.rendered s m).message := by
  unfold RenderArgs.rendered
  split
  · split_ifs
    · exact ⟨_, rfl⟩
    · exact ⟨_, rfl⟩
  · cases m <;> first | rfl | exact ⟨_, rfl⟩

theorem sameShape_out (s : RenderState) (ms : List AgentMessage) :
    List.Forall₂ SameShape ms ((p.renderPass.out s ms).map Rendered.message) := by
  induction ms generalizing s with
  | nil => exact List.Forall₂.nil
  | cons m ms ih => exact List.Forall₂.cons (sameShape_rendered p _ m) (ih _)

end

section

variable (env : Env) (tzName : Str) (c : Carry) (row : StoredMessage)

theorem emit_expand (h : rowInteractions env row ≠ []) : ∃ text,
    (convertRow env tzName c row).1 = expandOutboundWithTools (rowInteractions env row) text (some row.seq) := by
  unfold rowInteractions at h ⊢
  by_cases hd : row.direction = .inbound
  · simp [hd] at h
  · simp only [hd, if_false] at h ⊢
    unfold convertRow
    simp only [hd, if_false]
    rw [if_pos (by simpa using h)]
    exact ⟨_, rfl⟩

theorem emit_plain (h : rowInteractions env row = []) :
    (convertRow env tzName c row).1 = [] ∨ ∃ m, (convertRow env tzName c row).1 = [m] ∧ ∀ m', SameShape m m' → m' = m := by
  unfold rowInteractions at h
  unfold convertRow
  by_cases hd : row.direction = .inbound
  · simp only [hd, if_true]
    split_ifs
    · exact Or.inl rfl
    · exact Or.inl rfl
    · exact Or.inr ⟨_, rfl, fun m' hm => hm⟩
  · simp only [hd, if_false] at h ⊢
    simp only [h, List.isEmpty_nil, not_true_eq_false, if_false]
    split_ifs
    · exact Or.inl rfl
    · exact Or.inr ⟨_, rfl, fun m' hm => hm⟩

theorem annotateRow_expand {text : Str} (h : (convertRow env tzName c row).1 =
    expandOutboundWithTools (rowInteractions env row) text (some row.seq)) :
    annotateRow env tzName c row = (callMessage (rowInteractions env row) row.seq, none) ::
      ((rowInteractions env row).map (fun tc => (AgentMessage.toolResult tc.toolCallId tc.result false, some tc)) ++
        [(.assistant (some text) [] (some row.seq), none)]) := by
  unfold annotateRow
  rw [h]
  simp only [expandOutboundWithTools, List.cons_append, List.zip_cons_cons, callMessage]
  congr 1
  induction rowInteractions env row with
  | nil => rfl
  | cons tc tcs ih => simp only [List.map_cons, List.cons_append, List.zip_cons_cons, ih]

theorem annotateRow_fst : (annotateRow env tzName c row).map Prod.fst = (convertRow env tzName c row).1 := by
  by_cases h : rowInteractions env row = []
  · unfold annotateRow
    rw [h]
    rcases emit_plain env tzName c row h with he | ⟨m, he, -⟩ <;> rw [he] <;> rfl
  · obtain ⟨text, he⟩ := emit_expand env tzName c row h
    rw [annotateRow_expand env tzName c row he, he]
    simp [expandOutboundWithTools, callMessage]

/-- **One row.** Its write results are kept when every write among its calls is. -/
theorem row_writesKept (p : RenderArgs) (s : RenderState) (tools : Dict Tool) :
    List.Forall₂ (WriteKept tools) (annotateRow env tzName c row)
        ((p.renderPass.out s (convertRow env tzName c row).1).map Rendered.message) ↔
      ∀ tc ∈ rowInteractions env row, isWrite tools tc.name tc.args = true →
        p.resultText (p.see s (callMessage (rowInteractions env row) row.seq)) tc ∈
          [tc.result, stripSkillGuidance tc.result] := by
  have hnone : ∀ m m', WriteKept tools (m, none) m' := fun m m' tc htc => by cases htc
  by_cases h : rowInteractions env row = []
  · simp only [h, List.not_mem_nil, false_implies, implies_true, iff_true]
    unfold annotateRow
    rw [h]
    rcases emit_plain env tzName c row h with he | ⟨m, he, -⟩ <;> rw [he]
    · exact List.Forall₂.nil
    · exact List.Forall₂.cons (hnone _ _) List.Forall₂.nil
  · obtain ⟨text, he⟩ := emit_expand env tzName c row h
    rw [annotateRow_expand env tzName c row he, he, out_expand]
    have hres : ∀ tcs : List StoredToolInteraction, ∀ st : RenderState, ∀ y y' : AgentMessage,
        List.Forall₂ (WriteKept tools)
          (tcs.map (fun tc => (AgentMessage.toolResult tc.toolCallId tc.result false, some tc)) ++ [(y, none)])
          (tcs.map (fun tc => AgentMessage.toolResult tc.toolCallId (p.resultText st tc) false) ++ [y']) ↔
        ∀ tc ∈ tcs, isWrite tools tc.name tc.args = true → p.resultText st tc ∈ [tc.result, stripSkillGuidance tc.result] := by
      intro tcs st y y'
      induction tcs with
      | nil => simp [hnone]
      | cons tc tcs ih =>
        simp only [List.map_cons, List.cons_append, List.forall₂_cons, ih, List.mem_cons, forall_eq_or_imp]
        refine and_congr_left fun _ => ?_
        simp [WriteKept]
    simp only [List.forall₂_cons, hnone, true_and]
    exact hres _ _ _ _

end

/-! ## A list of rows -/

section

variable (env : Env) (tzName : Str) (p : RenderArgs)

theorem length_renderPass_out (s : RenderState) (ms : List AgentMessage) : (p.renderPass.out s ms).length = ms.length := by
  induction ms generalizing s with
  | nil => rfl
  | cons m ms ih => rw [Passes.Pass.out_cons, List.length_append, ih]; simp [RenderArgs.renderPass, Nat.add_comm]

/-- a row without a shadowed write -/
theorem kept_of_not_shadowed {row : StoredMessage} {s : RenderState} (h : ¬ Shadowed env p.toolsByName row) :
    ∀ tc ∈ rowInteractions env row, isWrite p.toolsByName tc.name tc.args = true →
      p.resultText (p.see s (callMessage (rowInteractions env row) row.seq)) tc ∈
        [tc.result, stripSkillGuidance tc.result] := by
  intro tc htc hw
  obtain ⟨last, hlast⟩ := exists_lastCall htc
  rw [resultText_eq p hlast]
  split_ifs with hold helide
  · by_contra hne
    exact h ⟨tc, htc, hw, last, hlast, helide.2, helide.1, hne⟩
  · simp
  · simp

/-- a shadowed write of an old row is stubbed -/
theorem not_kept_of_shadowed {row : StoredMessage} {s : RenderState} (h : Shadowed env p.toolsByName row)
    (hold : p.old (p.see s (callMessage (rowInteractions env row) row.seq)) = true) :
    ¬ ∀ tc ∈ rowInteractions env row, isWrite p.toolsByName tc.name tc.args = true →
      p.resultText (p.see s (callMessage (rowInteractions env row) row.seq)) tc ∈
        [tc.result, stripSkillGuidance tc.result] := by
  obtain ⟨tc, htc, hw, last, hlast, hread, hlen, hne⟩ := h
  intro hall
  have hmem := hall tc htc hw
  rw [resultText_eq p hlast, if_pos hold, if_pos ⟨hlen, hread⟩] at hmem
  exact hne hmem

/-- the rendering of rows, row by row -/
theorem out_rows (c : Carry) (s : RenderState) (rows : List StoredMessage) :
    p.renderPass.out s ((converter env tzName).out c rows) =
      ((converter env tzName).andThen p.renderPass).out (c, s) rows :=
  (Passes.Pass.out_andThen _ _ _ _ _).symm

theorem writesKept_out {rows : List StoredMessage} (h : ∀ row ∈ rows, ¬ Shadowed env p.toolsByName row) (c : Carry)
    (s : RenderState) :
    List.Forall₂ (WriteKept p.toolsByName) ((annotator env tzName).out c rows)
      ((p.renderPass.out s ((converter env tzName).out c rows)).map Rendered.message) := by
  rw [out_rows, List.forall₂_map_right_iff]
  refine Passes.Pass.forall₂_out _ _ (R := fun c cs => c = cs.1) (s := c) (t := (c, s)) rfl ?_ ?_
  · rintro c ⟨c', s⟩ row - rfl; rfl
  · rintro c ⟨c', s⟩ row hrow rfl
    exact List.forall₂_map_right_iff.1
      ((row_writesKept env tzName c row p s p.toolsByName).2 (kept_of_not_shadowed env p (h row hrow)))

/-- a row whose write results are sent, in a list whose write results are -/
theorem row_of_writesKept {rows : List StoredMessage} {c : Carry} {s : RenderState}
    (h : List.Forall₂ (WriteKept p.toolsByName) ((annotator env tzName).out c rows)
      ((p.renderPass.out s ((converter env tzName).out c rows)).map Rendered.message)) {row : StoredMessage}
    (hrow : row ∈ rows) : ∃ s', ∀ tc ∈ rowInteractions env row, isWrite p.toolsByName tc.name tc.args = true →
      p.resultText (p.see s' (callMessage (rowInteractions env row) row.seq)) tc ∈
        [tc.result, stripSkillGuidance tc.result] := by
  obtain ⟨pre, post, rfl⟩ := List.append_of_mem hrow
  rw [out_rows, List.forall₂_map_right_iff] at h
  have hlen : ∀ (c : Carry) (cs : Carry × RenderState) (row : StoredMessage), c = cs.1 →
      ((annotator env tzName).emit c row).length =
        (((converter env tzName).andThen p.renderPass).emit cs row).length := by
    rintro c ⟨c', s⟩ row rfl
    have h1 := congrArg List.length (annotateRow_fst env tzName c row)
    rw [List.length_map] at h1
    exact h1.trans (length_renderPass_out p s _).symm
  obtain ⟨c', ⟨c'', s'⟩, rfl, hemit⟩ := Passes.Pass.forall₂_emit _ _ (R := fun c cs => c = cs.1) rfl
    (by rintro c ⟨c', s⟩ row rfl; rfl) hlen h
  exact ⟨s', (row_writesKept env tzName c' row p s' p.toolsByName).1 (List.forall₂_map_right_iff.2 hemit)⟩

end

/-! ## Views -/

section

variable (c : Ctx)

theorem fitVerbatim_eq_render (kept : List (List StoredMessage)) (post preceding : List StoredMessage)
    (stubBefore : Option ℕ) (verbatim : ℕ) :
    ∃ n, c.fitVerbatim kept post preceding stubBefore verbatim = c.render kept post n preceding stubBefore := by
  induction verbatim with
  | zero => exact ⟨_, rfl⟩
  | succ verbatim ih =>
    simp only [Ctx.fitVerbatim]
    split_ifs
    · exact ⟨_, rfl⟩
    · exact ih

/-- a render with no old rows is the plain rendering -/
theorem out_plain (tools : Dict Tool) (s : RenderState) (ms : List AgentMessage) :
    ((RenderArgs.mk tools (fun _ => none) 0 none).renderPass.out s ms).map Rendered.message = ms := by
  induction ms generalizing s with
  | nil => rfl
  | cons m ms ih =>
    rw [Passes.Pass.out_cons, List.map_append, ih]
    have hold : ∀ s : RenderState, (RenderArgs.mk tools (fun _ => none) 0 none).old s = false := fun s => by
      cases hg : s.group <;> simp [RenderArgs.old, hg]
    have hm : ((RenderArgs.mk tools (fun _ => none) 0 none).rendered
        ((RenderArgs.mk tools (fun _ => none) 0 none).see s m) m).message = m := by
      unfold RenderArgs.rendered
      split
      · rw [hold]; rfl
      · rfl
    simp [RenderArgs.renderPass, hm]

/-- `v` is a render of the rows it keeps -/
def IsRender (rows preceding : List StoredMessage) (v : HistoryView) : Prop :=
  ∃ kept, rows = v.droppedRows ++ kept ∧ ∃ p : RenderArgs, p.toolsByName = c.toolsByName ∧
    v.messages = (p.renderPass.out ⟨none, none, []⟩
      (storedMessagesToAgentMessages c.env kept c.tzName (preceding ++ v.droppedRows))).map Rendered.message

/-- **Every view is a render of the rows it keeps.** -/
theorem buildHistoryView_isRender (rows : List StoredMessage) (current : Option StoredMessage) (compact : Bool)
    (preceding : List StoredMessage) (stubBefore : Option ℕ) :
    IsRender c rows preceding (c.buildHistoryView rows current compact preceding stubBefore) := by
  have hplain : ∀ e n, IsRender c rows preceding
      ⟨storedMessagesToAgentMessages c.env rows c.tzName preceding, e, [], n⟩ := fun e n =>
    ⟨rows, rfl, ⟨c.toolsByName, fun _ => none, 0, none⟩, rfl, by
      simp only [List.append_nil]; exact (out_plain _ _ _).symm⟩
  cases current with
  | none => exact hplain _ _
  | some current =>
    by_cases h : compact = false ∨ ((findEpoch c.env c.cfg rows current).2 = 0 ∧ stubBefore = none)
    · rw [buildHistoryView_plain c rows current preceding stubBefore h]; exact hplain _ _
    · push Not at h
      obtain ⟨hc, hs⟩ := h
      obtain rfl : compact = true := by simpa using hc
      by_cases h0 : (findEpoch c.env c.cfg rows current).2 = 0
      · rw [buildHistoryView_stubbed c rows current preceding stubBefore h0 (hs h0)]
        refine ⟨rows, rfl, ⟨c.toolsByName, groupOf [], 0, stubBefore⟩, rfl, ?_⟩
        simp [Ctx.render, viewOf, Ctx.renderOut]
      · rw [buildHistoryView_rebuilt c rows current preceding stubBefore h0]
        generalize (findEpoch c.env c.cfg rows current).2 = b
        generalize c.start (groupTurns (rows.take b)) (rows.drop b) preceding stubBefore = s
        obtain ⟨n, hn⟩ := fitVerbatim_eq_render c ((groupTurns (rows.take b)).drop s) (rows.drop b)
          (preceding ++ ((groupTurns (rows.take b)).take s).flatten) stubBefore
          (min c.cfg.coldStartVerbatimTurns ((groupTurns (rows.take b)).drop s).length)
        refine ⟨((groupTurns (rows.take b)).drop s).flatten ++ rows.drop b, ?_,
          ⟨c.toolsByName, groupOf ((groupTurns (rows.take b)).drop s), n, stubBefore⟩, rfl, ?_⟩
        · rw [← List.append_assoc, ← List.flatten_append, List.take_append_drop, flatten_groupTurns,
            List.take_append_drop]
        · simp only [Ctx.fitFrom, hn, Ctx.render, viewOf, Ctx.renderOut]

/-- every candidate of the shed is a render of the rows it keeps -/
theorem shedCandidate_isRender (rows : List StoredMessage) (current : StoredMessage) (preceding : List StoredMessage)
    (stubBefore : Option ℕ) (start verbatim : ℕ) :
    IsRender c rows preceding (c.shedCandidate rows current preceding stubBefore start verbatim) := by
  obtain ⟨kept, hk, p, hp, hm⟩ := buildHistoryView_isRender c ((groupTurns rows).drop start).flatten (some current) true
    (preceding ++ ((groupTurns rows).take start).flatten)
    (some (stubLine current stubBefore (groupTurns rows) verbatim))
  refine ⟨kept, ?_, p, hp, ?_⟩
  · simp only [Ctx.shedCandidate]
    rw [List.append_assoc, ← hk, ← List.flatten_append, List.take_append_drop, flatten_groupTurns]
  · simp only [Ctx.shedCandidate]
    rw [hm, List.append_assoc]

theorem IsRender.shapeKept {rows preceding : List StoredMessage} {v : HistoryView} (h : IsRender c rows preceding v) :
    ShapeKept c rows preceding v := by
  obtain ⟨kept, hk, p, -, hm⟩ := h
  exact ⟨kept, hk, hm ▸ sameShape_out p _ _⟩

theorem IsRender.writesKept {rows preceding : List StoredMessage} {v : HistoryView} (h : IsRender c rows preceding v)
    (hrows : ∀ row ∈ rows, ¬ Shadowed c.env c.toolsByName row) : WritesKept c rows preceding v := by
  obtain ⟨kept, hk, p, hp, hm⟩ := h
  refine ⟨kept, hk, ?_⟩
  rw [hm, ← hp]
  exact writesKept_out c.env c.tzName p (fun row hr => hp ▸ hrows row (hk ▸ List.mem_append_right _ hr)) _ _

end

/-! ## Results -/

/-- a budget and a turn limit with room for everything, and no verbatim window -/
def roomy (budget turns : ℕ) : Settings :=
  { Settings.default with
    coldStartVerbatimTurns := 0
    coldStartHistoryBudgetTokens := 1000 + budget
    historyBudget_min := by omega
    contextTrimTargetTurns := 2 + turns
    targetTurns_min := by omega }

/-- with room for everything, the view is the render of all rows with the stub seq -/
theorem exists_roomy (env : Env) (tools : Dict Tool) (rows : List StoredMessage) (current : StoredMessage) (q : ℕ) :
    ∃ cfg, ∃ p : RenderArgs, p.toolsByName = tools ∧ p.stubBefore = some q ∧
      let v := (Ctx.mk env cfg tools []).buildHistoryView rows (some current) true [] (some q)
      v.droppedRows = [] ∧ v.messages = (p.renderPass.out ⟨none, none, []⟩
        (storedMessagesToAgentMessages env rows [] [])).map Rendered.message := by
  -- the epoch does not depend on the budget
  have hep : ∀ budget turns, findEpoch env (roomy budget turns) rows current =
      findEpoch env Settings.default rows current := fun _ _ => rfl
  by_cases h0 : (findEpoch env Settings.default rows current).2 = 0
  · refine ⟨roomy 0 0, ⟨tools, groupOf [], 0, some q⟩, rfl, rfl, ?_⟩
    rw [buildHistoryView_stubbed _ rows current [] (some q) (by simp only [hep, h0]) (by simp)]
    refine ⟨rfl, ?_⟩
    simp [Ctx.render, viewOf, Ctx.renderOut]
  · generalize hb : (findEpoch env Settings.default rows current).2 = b at h0
    let groups := groupTurns (rows.take b)
    let v := (Ctx.mk env Settings.default tools []).render groups (rows.drop b) groups.length [] (some q)
    refine ⟨roomy v.tokens rows.length, ⟨tools, groupOf groups, groups.length, some q⟩, rfl, rfl, ?_⟩
    rw [buildHistoryView_rebuilt _ rows current [] (some q) (by simp only [hep, hb]; exact h0)]
    simp only [hep, hb]
    have hfit : (Ctx.mk env (roomy v.tokens rows.length) tools []).fitFrom groups (rows.drop b) [] (some q) 0 = v := by
      have hmin : min (roomy v.tokens rows.length).coldStartVerbatimTurns (groups.drop 0).length = 0 := Nat.zero_min _
      unfold Ctx.fitFrom
      rw [hmin]
      rfl
    have hstart : (Ctx.mk env (roomy v.tokens rows.length) tools []).start groups (rows.drop b) [] (some q) = 0 := by
      refine start_eq_zero _ _ _ _ _ (Or.inr ?_)
      rw [hfit]
      have hlen : groups.length ≤ rows.length := (Groups.length_group_le _ (rows.take b)).trans (by
        rw [List.length_take]; exact min_le_right _ _)
      rintro (h | h)
      · simp only [roomy] at h; omega
      · simp only [roomy] at h; omega
    rw [hstart, hfit]
    refine ⟨by simp, ?_⟩
    simp only [v, groups, Ctx.render, viewOf, Ctx.renderOut, flatten_groupTurns, List.take_append_drop]

/-- a shadowed write is stubbed in some view -/
theorem exists_stubbed {env : Env} {tools : Dict Tool} (rows : List StoredMessage) {row : StoredMessage}
    (hrow : row ∈ rows) (h : Shadowed env tools row) (current : StoredMessage) :
    ∃ cfg, ¬ WritesKept ⟨env, cfg, tools, []⟩ rows []
      ((Ctx.mk env cfg tools []).buildHistoryView rows (some current) true [] (some (row.seq + 1))) := by
  obtain ⟨cfg, p, rfl, hp, hd, hm⟩ := exists_roomy env tools rows current (row.seq + 1)
  refine ⟨cfg, ?_⟩
  rintro ⟨kept, hk, hall⟩
  rw [hd, List.nil_append] at hk
  rw [hd, hm, ← hk] at hall
  obtain ⟨s, hs⟩ := row_of_writesKept env [] p hall hrow
  refine not_kept_of_shadowed env p (s := s) h ?_ hs
  simp [RenderArgs.old, hp, RenderArgs.see, callMessage, AgentMessage.seq?]

/-- No write result is stubbed: in any view of the rows, and in any candidate of the shed. -/
def NoWriteStubbed (env : Env) (tools : Dict Tool) (rows : List StoredMessage) : Prop :=
  ∀ (cfg : Settings) (tzName : Str) (preceding : List StoredMessage) (stubBefore : Option ℕ),
    (∀ (current : Option StoredMessage) (compact : Bool), WritesKept ⟨env, cfg, tools, tzName⟩ rows preceding
      ((Ctx.mk env cfg tools tzName).buildHistoryView rows current compact preceding stubBefore)) ∧
    ∀ (current : StoredMessage) (start verbatim : ℕ), WritesKept ⟨env, cfg, tools, tzName⟩ rows preceding
      ((Ctx.mk env cfg tools tzName).shedCandidate rows current preceding stubBefore start verbatim)

/-- Tool pairing survives every rebuild. -/
def ShapesKept (env : Env) (tools : Dict Tool) (rows : List StoredMessage) : Prop :=
  ∀ (cfg : Settings) (tzName : Str) (preceding : List StoredMessage) (stubBefore : Option ℕ),
    (∀ (current : Option StoredMessage) (compact : Bool), ShapeKept ⟨env, cfg, tools, tzName⟩ rows preceding
      ((Ctx.mk env cfg tools tzName).buildHistoryView rows current compact preceding stubBefore)) ∧
    ∀ (current : StoredMessage) (start verbatim : ℕ), ShapeKept ⟨env, cfg, tools, tzName⟩ rows preceding
      ((Ctx.mk env cfg tools tzName).shedCandidate rows current preceding stubBefore start verbatim)

theorem shape_kept (env : Env) (tools : Dict Tool) (rows : List StoredMessage) : ShapesKept env tools rows :=
  fun _ _ _ _ => ⟨fun _ _ => (buildHistoryView_isRender _ _ _ _ _ _).shapeKept,
    fun _ _ _ => (shedCandidate_isRender _ _ _ _ _ _ _).shapeKept⟩

/-- **When no write result is stubbed.** Pairing is kept in every rebuild; write results are kept in every one of them
exactly when no row has a shadowed write. -/
theorem write_results_kept (env : Env) (tools : Dict Tool) (rows : List StoredMessage) :
    ShapesKept env tools rows ∧ NoWriteStubbed env tools rows ↔ ∀ row ∈ rows, ¬ Shadowed env tools row := by
  constructor
  · rintro ⟨-, h⟩ row hrow hsh
    obtain ⟨cfg, hcfg⟩ := exists_stubbed rows hrow hsh row
    exact hcfg ((h cfg [] [] (some (row.seq + 1))).1 (some row) true)
  · intro h
    refine ⟨shape_kept env tools rows, fun cfg tzName preceding stubBefore => ⟨fun current compact => ?_,
      fun current start verbatim => ?_⟩⟩
    · exact (buildHistoryView_isRender _ _ _ _ _ _).writesKept _ h
    · exact (shedCandidate_isRender _ _ _ _ _ _ _).writesKept _ h

/-- the stored calls of a row: a created event and a lookup, both without an id -/
def repeatedIdText : Str :=
  "[\x7b\"name\": \"create_event\", \"result\": \"".toList ++ List.replicate 301 'x' ++
    "\"\x7d, \x7b\"name\": \"list_events\", \"result\": \"none\"\x7d]".toList

def repeatedIdRow : StoredMessage :=
  ⟨.outbound, "Done.".toList, [], repeatedIdText, [], "2026-09-01T09:00:00+00:00".toList, 1⟩

def repeatedIdEnv : Env :=
  sampleEnv [("2026-09-01T09:00:00+00:00", 1788253200000000, "Tuesday, 2026-09-01 09:00 AM")]
    [(repeatedIdText,
      .arr [.obj [("name".toList, .str "create_event".toList), ("result".toList, .str (List.replicate 301 'x'))],
        .obj [("name".toList, .str "list_events".toList), ("result".toList, .str "none".toList)]])]

/-- a tool that writes and a tool that reads -/
def calendarTools : Dict Tool := [("create_event".toList, ⟨false, none⟩), ("list_events".toList, ⟨true, none⟩)]

set_option maxRecDepth 20000 in
theorem repeatedId_shadowed : Shadowed repeatedIdEnv calendarTools repeatedIdRow := by decide

/-- **A repeated id.** The event's result is classified as the lookup's and stubbed. -/
theorem repeated_id_stubbed : ¬ NoWriteStubbed repeatedIdEnv calendarTools [repeatedIdRow] := by
  intro h
  obtain ⟨cfg, hcfg⟩ := exists_stubbed [repeatedIdRow] (by simp) repeatedId_shadowed repeatedIdRow
  exact hcfg ((h cfg [] [] (some 2)).1 (some repeatedIdRow) true)

end Clawbolt.History
