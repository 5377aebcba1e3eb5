/-
Deleting messages by seq, and the watermark repair.

A delete should keep every surviving row on its side of the watermark: what was compacted stays hidden from the loader,
what was not stays visible. The repair clears the watermark as soon as no row is left above it, also when compacted rows
survive below it.

Results:
- `delete_keeps_hidden`: for every session and every delete by seq, each surviving row keeps its side of the watermark if
  and only if the delete removes nothing, or there is no watermark, or a row survives above it, or none survives at or
  below it;
- `last_row_deleted`: three rows, two of them compacted; deleting the third makes the first two visible again.
-/
import Mathlib.Tactic
import Clawbolt.Session.Store

namespace Clawbolt.Session

/-- every surviving row keeps its side of the watermark -/
def KeepsSides (s s' : St) : Prop := ∀ r ∈ s'.rows, s.Hidden r ↔ s'.Hidden r

instance (s s' : St) : Decidable (KeepsSides s s') := by unfold KeepsSides; infer_instance

/-- the delete finds nothing, or the repair has nothing to clear, or nothing to protect -/
def RepairSafe (s : St) (seqs : List ℕ) : Prop :=
  (∀ r ∈ s.rows, r.seq ∉ seqs) ∨
    ∀ w ∈ s.lastTrimSeq, (∃ r ∈ s.surviving seqs, w < r.seq) ∨ ∀ r ∈ s.surviving seqs, w < r.seq

/-! ## The repair -/

theorem repair_lastTrimSeq (s : St) (rows : List Row) :
    (resetTrimWatermarkIfOrphaned (s.setRows rows)).lastTrimSeq =
      s.lastTrimSeq.filter fun w => ∃ r ∈ rows, w < r.seq := by
  have h : ∀ w : ℕ, (¬ AtMost (selectMaxSeq rows) w) ↔ ∃ r ∈ rows, w < r.seq := fun w => by
    rw [atMost_iff]; push Not; rfl
  simp only [resetTrimWatermarkIfOrphaned, setRows_lastTrimSeq, setRows_rows, h]

/-- a delete that finds a row -/
theorem deleteSeqs_found {s : St} {seqs : List ℕ} (h : ∃ r ∈ s.rows, r.seq ∈ seqs) :
    deleteSeqs s seqs = resetTrimWatermarkIfOrphaned (s.setRows (s.surviving seqs)) := by
  have hlt : (s.surviving seqs).length < s.rows.length := by
    obtain ⟨r, hr, hq⟩ := h
    exact List.length_filter_lt_length_iff_exists.2 ⟨r, hr, by simpa using hq⟩
  exact if_pos hlt

theorem deleteSeqs_none {s : St} {seqs : List ℕ} (h : ∀ r ∈ s.rows, r.seq ∉ seqs) : deleteSeqs s seqs = s := by
  have heq : s.surviving seqs = s.rows := List.filter_eq_self.2 fun r hr => by simpa using h r hr
  exact if_neg (by rw [heq]; exact lt_irrefl _)

/-- one watermark `w` before the delete, the surviving rows after it -/
theorem sides_iff {rows : List Row} {w : ℕ} :
    (∀ r ∈ rows, r.seq ≤ w ↔ ∃ v ∈ (some w).filter (fun w => decide (∃ r ∈ rows, w < r.seq)), r.seq ≤ v) ↔
      (∃ r ∈ rows, w < r.seq) ∨ ∀ r ∈ rows, w < r.seq := by
  by_cases h : ∃ r ∈ rows, w < r.seq
  · simp [h]
  · simp only [h, Option.filter_some, decide_false, Bool.false_eq_true, if_false, Option.mem_def, reduceCtorEq, false_and,
      exists_false, iff_false, not_le, false_or]

/-! ## Results -/

/-- **When a delete keeps the compacted rows hidden.** For every session and every delete of one or several messages. -/
theorem delete_keeps_hidden (s : St) :
    (∀ seqs, KeepsSides s (step s (.deleteMessagesBySeqs seqs)) ↔ RepairSafe s seqs) ∧
      ∀ seq, KeepsSides s (step s (.deleteMessage seq)) ↔ RepairSafe s [seq] := by
  have key : ∀ seqs, KeepsSides s (deleteSeqs s seqs) ↔ RepairSafe s seqs := by
    intro seqs
    by_cases h : ∃ r ∈ s.rows, r.seq ∈ seqs
    · have hn : ¬ ∀ r ∈ s.rows, r.seq ∉ seqs := by push Not; exact h
      have hrows : (resetTrimWatermarkIfOrphaned (s.setRows (s.surviving seqs))).rows = s.surviving seqs := rfl
      simp only [RepairSafe, hn, false_or, deleteSeqs_found h, KeepsSides, hrows, St.Hidden, repair_lastTrimSeq]
      cases s.lastTrimSeq with
      | none => simp
      | some w => simpa using sides_iff
    · push Not at h
      simp only [deleteSeqs_none h, KeepsSides, RepairSafe, iff_self, implies_true, true_iff]
      exact Or.inl h
  exact ⟨key, fun seq => key [seq]⟩

/-- three messages; a turn that loaded them drops the first two -/
def trimmedOps : List Op := [.addMessage, .addMessage, .addMessage, .load, .triggerCompaction 0 [0, 1]]

/-- **The repair un-hides.** Rows 1 and 2 are compacted; deleting row 3 clears the watermark above them. -/
theorem last_row_deleted : (run init trimmedOps).lastTrimSeq = some 2 ∧
    ¬ KeepsSides (run init trimmedOps) (step (run init trimmedOps) (.deleteMessage 3)) := by
  decide

end Clawbolt.Session
