/-
What a mid-session trim sends is what the next turns render.

`shed_history_view` tries candidates: so many turns dropped, so many left whole. It encodes the one it takes in two stored
values, the trim watermark and the stub seq, and every later turn rebuilds its history from these.

- `le_stubLine`: the stub seq never moves back;
- `dropsFront_turns`: what a shed drops is whole turns;
- `shed_renders_next`: the next turn, on the rows that the shed left, drops nothing and sends the shed history, then the
  messages appended since.
-/
import Mathlib.Tactic
import Clawbolt.History.Turn

namespace Clawbolt.History

/-- the stub seq never moves back -/
theorem le_stubLine (current : StoredMessage) (groups : List (List StoredMessage)) (verbatim q : ℕ) :
    q ≤ stubLine current (some q) groups verbatim :=
  le_max_right _ _

/-- rows that an inbound row follows are whole turns -/
theorem dropsFront_turns {rows dropped : List StoredMessage} (h : DropsFront rows dropped) :
    ∃ n, dropped = ((groupTurns rows).take n).flatten := by
  by_cases hnil : dropped = []
  · exact ⟨0, by rw [hnil]; rfl⟩
  · obtain ⟨y, rest, rfl, hy⟩ := h.2 hnil
    refine ⟨(groupTurns dropped).length, ?_⟩
    have hgroups : groupTurns (dropped ++ y :: rest) = groupTurns dropped ++ groupTurns (y :: rest) :=
      Groups.group_append _ dropped rest fun _ => by simp [hy]
    rw [hgroups, List.take_left, flatten_groupTurns]

section

variable (c : Ctx) (rows preceding : List StoredMessage) (current : StoredMessage) (stubBefore : Option ℕ)

/-- the next turn after a candidate, on the rows that the candidate left -/
theorem candidate_renders_next (start verbatim : ℕ) (further : List StoredMessage) (current' : StoredMessage)
    (hcur : current.direction = .inbound)
    (hseq : ((rows ++ current :: (further ++ [current'])).map StoredMessage.seq).Pairwise (· < ·))
    (hwarm : ∀ i, rows.length < i → opensEpoch c.env c.cfg (rows ++ current :: (further ++ [current'])) i = false) :
    let s := c.candidate rows preceding stubBefore current start verbatim
    let w := c.buildHistoryView (rows.drop s.view.droppedRows.length ++ current :: further) (some current') true
      (preceding ++ s.view.droppedRows) (some s.stubBefore)
    w.droppedRows = [] ∧ s.view.messages <+: w.messages := by
  have hsplit : ((groupTurns rows).take start).flatten ++ ((groupTurns rows).drop start).flatten = rows := by
    rw [← List.flatten_append, List.take_append_drop, flatten_groupTurns]
  generalize hfirst : ((groupTurns rows).take start).flatten = first at hsplit
  generalize hrest : ((groupTurns rows).drop start).flatten = rest at hsplit
  have hseq' : ((rest ++ current :: (further ++ [current'])).map StoredMessage.seq).Pairwise (· < ·) := by
    refine hseq.sublist (List.Sublist.map _ ?_)
    rw [← hsplit, List.append_assoc]
    exact List.sublist_append_right _ _
  obtain ⟨kept, hkept, hdropped, -, hmessages⟩ := rebuild_grows c rest further (preceding ++ first) current current'
    (some (stubLine current stubBefore (groupTurns rows) verbatim)) hcur hseq' (later_of_warm c hcur hwarm)
  have hview : c.candidate rows preceding stubBefore current start verbatim =
      ⟨{ c.buildHistoryView rest (some current) true (preceding ++ first)
          (some (stubLine current stubBefore (groupTurns rows) verbatim)) with
          droppedRows := first ++ (c.buildHistoryView rest (some current) true (preceding ++ first)
            (some (stubLine current stubBefore (groupTurns rows) verbatim))).droppedRows },
        stubLine current stubBefore (groupTurns rows) verbatim⟩ := by
    rw [← hfirst, ← hrest]
    rfl
  rw [hview]
  generalize c.buildHistoryView rest (some current) true (preceding ++ first)
    (some (stubLine current stubBefore (groupTurns rows) verbatim)) = v at hkept hdropped hmessages ⊢
  have hleft : rows.drop (first ++ v.droppedRows).length = kept := by
    rw [← hsplit, hkept, ← List.append_assoc, List.drop_left]
  simp only [hleft, ← List.append_assoc]
  exact ⟨hdropped, hmessages⟩

/-- **A shed is what the next turns render.** The stub seq does not move back, whole turns are dropped, and for any further
rows with no cold gap the next turn drops nothing and sends the shed history, then what was appended. -/
theorem shed_renders_next (fits : List AgentMessage → Bool) (hcur : current.direction = .inbound) :
    let s := c.shedHistoryView rows current preceding stubBefore fits
    (∀ q, stubBefore = some q → q ≤ s.stubBefore) ∧
    (∃ n, s.view.droppedRows = ((groupTurns rows).take n).flatten) ∧
    ∀ further current', ((rows ++ current :: (further ++ [current'])).map StoredMessage.seq).Pairwise (· < ·) →
      (∀ i, rows.length < i → opensEpoch c.env c.cfg (rows ++ current :: (further ++ [current'])) i = false) →
      let w := c.buildHistoryView (rows.drop s.view.droppedRows.length ++ current :: further) (some current') true
        (preceding ++ s.view.droppedRows) (some s.stubBefore)
      w.droppedRows = [] ∧ s.view.messages <+: w.messages := by
  have hturns := dropsFront_turns (dropsFront_shedHistoryView c rows preceding stubBefore current fits)
  obtain ⟨start, v, -, hs⟩ := shedHistoryView_candidate c rows preceding stubBefore current fits
  refine ⟨fun q hq => ?_, hturns, fun further current' hseq hwarm => ?_⟩
  · rw [hs, hq]
    exact le_stubLine current (groupTurns rows) v q
  · rw [hs]
    exact candidate_renders_next c rows preceding current stubBefore start v further current' hcur hseq hwarm

end

/-- a shed of the first day, with nothing that fits -/
theorem shed_renders_next_two_days :
    let s := twoDaysCtx.shedHistoryView firstDay secondDay [] (some 1) fun _ => false
    let w := twoDaysCtx.buildHistoryView (firstDay.drop s.view.droppedRows.length ++ secondDay :: [secondDayReply])
      (some secondDayNext) true ([] ++ s.view.droppedRows) (some s.stubBefore)
    1 ≤ s.stubBefore ∧ w.droppedRows = [] ∧ s.view.messages <+: w.messages := by
  obtain ⟨hstub, -, hnext⟩ := shed_renders_next twoDaysCtx firstDay [] secondDay (some 1) (fun _ => false) rfl
  refine ⟨hstub 1 rfl, hnext [secondDayReply] secondDayNext (by decide) fun i hi => ?_⟩
  rcases Nat.lt_or_ge i 5 with h | h
  · obtain rfl | rfl : i = 3 ∨ i = 4 := by simp [firstDay] at hi; omega
    · decide
    · decide
  · exact opensEpoch_of_length_le _ _ h

end Clawbolt.History
