/-
The next message is visible: new messages, deletes, and watermark writes of turns in flight, in any interleaving.

A turn computes a watermark from the rows it loaded. A delete between its load and its write can take `max(seq)` below
that watermark; seqs are then given again from below it, and the messages that get them are hidden from the start.
`Fresh` says that no write does this: since the turn loaded its rows the session always held a row at or above the
watermark it writes, and every loaded row the write would hide is one it drops.

Results:
- `next_message_visible`: after every run whose watermark writes are fresh, the seq the next message gets is above the
  watermark, and every stored row is above it unless a turn that loaded it dropped it;
- `cleared_while_trimming`: a conversation cleared while a turn is trimming. The next message is hidden.
-/
import Mathlib.Tactic
import Clawbolt.Session.Delete

namespace Clawbolt.Session

/-- the next message is visible, and every message is until a turn that loaded it drops it -/
structure AllVisible (s : St) : Prop where
  next : ∀ w ∈ s.lastTrimSeq, w < s.nextSeq
  stored : ∀ r ∈ s.rows, s.Hidden r → r.uid ∈ s.dropped

/-- turn `t`, dropping `drop`, may write the watermark `m` -/
def FreshWrite (s : St) (t : Turn) (drop : List Row) (m : ℕ) : Prop :=
  s.lastTrimSeq.getD 0 < m → m ≤ t.low ∧ ∀ r ∈ t.loaded, r ∈ s.rows → ¬ s.Hidden r → r.seq ≤ m → r ∈ drop

instance (s : St) (t : Turn) (drop : List Row) (m : ℕ) : Decidable (FreshWrite s t drop m) := by
  unfold FreshWrite; infer_instance

/-- the watermark a write would set was never above the session, and hides only rows the turn drops -/
def Fresh (s : St) : Op → Prop
  | .triggerCompaction i drop =>
    ∀ t ∈ s.turns[i]?, ∀ m ∈ ((t.pick drop).map Row.seq).max?, FreshWrite s t (t.pick drop) m
  | .advanceTrimWatermarkOnly i drop =>
    ∀ t ∈ s.turns[i]?, ∀ r ∈ (t.pick drop).getLast?, FreshWrite s t (t.pick drop) r.seq
  | _ => True

instance (s : St) (o : Op) : Decidable (Fresh s o) := by
  cases o <;> unfold Fresh <;> infer_instance

/-! ## The invariant -/

/-- what a turn knows of the session: `low` is a floor of `max(seq)`, and below it nothing has been replaced -/
structure TurnInv (s : St) (t : Turn) : Prop where
  low : t.low ≤ (selectMaxSeq s.rows).getD 0
  loaded : ∀ r ∈ s.rows, r.seq ≤ t.low → r ∈ t.loaded ∨ r.uid ∈ s.dropped

structure Inv (s : St) : Prop where
  /-- some row is at or above the watermark -/
  top : ∀ w ∈ s.lastTrimSeq, ∃ r ∈ s.rows, w ≤ r.seq
  hidden : ∀ r ∈ s.rows, s.Hidden r → r.uid ∈ s.dropped
  turns : ∀ t ∈ s.turns, TurnInv s t

theorem inv_init : Inv init := ⟨by simp [init], by simp [init], by simp [init]⟩

theorem Inv.visible {s : St} (h : Inv s) : AllVisible s := by
  refine ⟨fun w hw => ?_, h.hidden⟩
  obtain ⟨r, hr, hle⟩ := h.top w hw
  exact hle.trans_lt (lt_nextSeq hr)

/-- rows removed or not, a turn keeps what it knows -/
theorem turnInv_setRows {s : St} (h : ∀ t ∈ s.turns, TurnInv s t) {rows : List Row}
    (hrows : ∀ r ∈ rows, r ∈ s.rows ∨ (selectMaxSeq s.rows).getD 0 < r.seq) :
    ∀ t ∈ (s.setRows rows).turns, TurnInv (s.setRows rows) t := by
  intro t' ht'
  obtain ⟨t, ht, rfl⟩ := List.mem_map.1 ht'
  refine ⟨min_le_right _ _, fun r hr hle => ?_⟩
  rcases hrows r hr with hr | hlt
  · exact (h t ht).loaded r hr (hle.trans (min_le_left _ _))
  · have := (h t ht).low
    have := hle.trans (min_le_left _ _)
    omega

/-- a turn reads the rows and the drops, and nothing else of the state -/
theorem TurnInv.congr {s s' : St} {t : Turn} (h : TurnInv s t) (hr : s'.rows = s.rows) (hd : s.dropped ⊆ s'.dropped) :
    TurnInv s' t :=
  ⟨hr ▸ h.low, fun r hm hle => (h.loaded r (hr ▸ hm) hle).imp_right fun h => hd h⟩

/-! ## One step -/

theorem addMessage_inv {s : St} (h : Inv s) : Inv (step s .addMessage) := by
  refine ⟨fun w hw => ?_, fun r hr hh => ?_, ?_⟩
  · obtain ⟨r, hr, hle⟩ := h.top w hw
    exact ⟨r, List.mem_append_left _ hr, hle⟩
  · rcases List.mem_append.1 hr with hr | hr
    · exact h.hidden r hr hh
    · obtain ⟨w, hw, hle⟩ := hh
      have hnext := h.visible.next w hw
      simp only [List.mem_singleton] at hr
      subst hr
      exact absurd hnext (not_lt.2 hle)
  · have hnew : ∀ r ∈ s.rows ++ [⟨s.persisted, s.nextSeq⟩],
        r ∈ s.rows ∨ (selectMaxSeq s.rows).getD 0 < r.seq := fun r hr => by
      refine (List.mem_append.1 hr).imp_right fun hr => ?_
      simp only [List.mem_singleton] at hr
      subst hr
      exact Nat.lt_succ_self _
    intro t ht
    exact (turnInv_setRows h.turns hnew t ht).congr rfl (List.Subset.refl _)

theorem deleteSeqs_inv {s : St} (h : Inv s) (seqs : List ℕ) : Inv (deleteSeqs s seqs) := by
  by_cases hf : ∃ r ∈ s.rows, r.seq ∈ seqs
  · rw [deleteSeqs_found hf]
    have hsub : ∀ r ∈ s.surviving seqs, r ∈ s.rows := fun r hr => (List.mem_filter.1 hr).1
    refine ⟨fun w hw => ?_, fun r hr hh => ?_, ?_⟩
    · rw [repair_lastTrimSeq] at hw
      simp only [Option.mem_def, Option.filter_eq_some_iff, decide_eq_true_eq] at hw
      obtain ⟨-, r, hr, hlt⟩ := hw
      exact ⟨r, hr, hlt.le⟩
    · obtain ⟨w, hw, hle⟩ := hh
      rw [repair_lastTrimSeq] at hw
      exact h.hidden r (hsub r hr) ⟨w, (Option.filter_eq_some_iff.1 hw).1, hle⟩
    · intro t ht
      exact (turnInv_setRows h.turns (fun r hr => Or.inl (hsub r hr)) t ht).congr rfl (List.Subset.refl _)
  · push Not at hf
    rw [deleteSeqs_none hf]; exact h

theorem load_inv {s : St} (h : Inv s) : Inv (step s .load) := by
  refine ⟨h.top, h.hidden, fun t ht => ?_⟩
  rcases List.mem_append.1 ht with ht | ht
  · exact (h.turns t ht).congr rfl (List.Subset.refl _)
  · simp only [List.mem_singleton] at ht
    subst ht
    refine ⟨le_rfl, fun r hr _ => ?_⟩
    by_cases hh : s.Hidden r
    · exact Or.inr (h.hidden r hr hh)
    · exact Or.inl (List.mem_filter.2 ⟨hr, by simpa using hh⟩)

/-- a fresh write keeps the invariant -/
theorem advance_inv {s : St} (h : Inv s) {t : Turn} (ht : t ∈ s.turns) {drop : List Row} {m : ℕ}
    (hC : FreshWrite s t drop m) :
    Inv { s with lastTrimSeq := advance s.lastTrimSeq m, dropped := s.dropped ++ drop.map Row.uid } := by
  have hsub : s.dropped ⊆ s.dropped ++ drop.map Row.uid := List.subset_append_left _ _
  have hturns : ∀ t ∈ s.turns, TurnInv { s with
      lastTrimSeq := advance s.lastTrimSeq m, dropped := s.dropped ++ drop.map Row.uid } t :=
    fun t ht => (h.turns t ht).congr rfl hsub
  by_cases hlt : s.lastTrimSeq.getD 0 < m
  · obtain ⟨hm, hdrop⟩ := hC hlt
    have hadv : advance s.lastTrimSeq m = some m := if_pos hlt
    refine ⟨fun w hw => ?_, fun r hr hh => ?_, hturns⟩
    · simp only [hadv, Option.mem_def, Option.some.injEq] at hw
      subst hw
      exact exists_of_le_maxSeq (by omega) (hm.trans (h.turns t ht).low)
    · obtain ⟨w, hw, hle⟩ := hh
      simp only [hadv, Option.mem_def, Option.some.injEq] at hw
      subst hw
      by_cases hv : s.Hidden r
      · exact hsub (h.hidden r hr hv)
      -- a row that this write hides was loaded by the turn, so it is one the turn drops
      · rcases (h.turns t ht).loaded r hr (hle.trans hm) with hl | hd
        · exact List.mem_append_right _ (List.mem_map_of_mem (hdrop r hl hr hv hle))
        · exact hsub hd
  · have hadv : advance s.lastTrimSeq m = s.lastTrimSeq := if_neg hlt
    rw [hadv] at hturns ⊢
    exact ⟨h.top, fun r hr hh => hsub (h.hidden r hr hh), hturns⟩

theorem step_inv (s : St) (o : Op) (h : Inv s) (hC : Fresh s o) : Inv (step s o) := by
  cases o with
  | addMessage => exact addMessage_inv h
  | deleteMessage q => exact deleteSeqs_inv h [q]
  | deleteMessagesBySeqs qs => exact deleteSeqs_inv h qs
  | deleteMessages =>
    refine ⟨by simp [step], by simp [step], fun t ht => ?_⟩
    exact (turnInv_setRows h.turns (by simp) t ht).congr rfl (List.Subset.refl _)
  | load => exact load_inv h
  | triggerCompaction i drop =>
    simp only [step]
    cases ht : s.turns[i]? with
    | none => exact h
    | some t =>
      simp only [trigger_eq]
      cases hm : ((t.pick drop).map Row.seq).max? with
      | none =>
        rw [List.max?_eq_none_iff, List.map_eq_nil_iff] at hm
        simpa [hm] using h
      | some m => exact advance_inv h (List.mem_of_getElem? ht) (hC t (by simp [ht]) m (by simp [hm]))
  | advanceTrimWatermarkOnly i drop =>
    simp only [step]
    cases ht : s.turns[i]? with
    | none => exact h
    | some t =>
      simp only
      cases hr : (t.pick drop).getLast? with
      | none => exact h
      | some r => exact advance_inv h (List.mem_of_getElem? ht) (hC t (by simp [ht]) r (by simp [hr]))
  | setHistoryStubSeq i k =>
    simp only [step]
    split
    · exact h
    · split
      · exact h
      · exact ⟨h.top, h.hidden, fun t ht => (h.turns t ht).congr rfl (List.Subset.refl _)⟩

/-! ## Results -/

/-- **The next message is always visible**, in every run whose watermark writes are fresh: messages, deletes and turns
interleave as they like. -/
theorem next_message_visible (ops : List Op) (hC : Runs.Meets step Fresh init ops) : AllVisible (run init ops) :=
  (Runs.run_inv step_inv hC inv_init).visible

/-- a turn drops its first two rows while the user sends a message and deletes another -/
def freshOps : List Op :=
  [.addMessage, .addMessage, .addMessage, .load, .addMessage, .deleteMessage 3, .triggerCompaction 0 [0, 1],
    .advanceTrimWatermarkOnly 0 [0, 1], .addMessage]

theorem next_message_visible_fresh : AllVisible (run init freshOps) := next_message_visible freshOps (by decide)

/-- the user clears the conversation after a turn loaded it and before the turn drops two rows -/
def clearedOps : List Op := [.addMessage, .addMessage, .addMessage, .load, .deleteMessages, .triggerCompaction 0 [0, 1]]

/-- **Cleared while trimming.** The watermark is written after the clear, above the seq of the next message. -/
theorem cleared_while_trimming : ¬ AllVisible (run init clearedOps) ∧
    ¬ AllVisible (run init (clearedOps ++ [.addMessage])) := by
  constructor
  · intro h
    exact absurd (h.next 2 (by decide)) (by decide)
  · intro h
    exact absurd (h.stored ⟨3, 1⟩ (by decide) (by decide)) (by decide)

end Clawbolt.Session
