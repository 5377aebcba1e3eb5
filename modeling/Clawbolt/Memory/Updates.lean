/-
No lost update on the three documents.

Compaction writes by compare-and-set; `edit_file` writes what it computed from the text it read, whatever the document
holds by then. `InPlace` says that a document still holds the text an edit read when the edit writes.

Results:
- `no_lost_update`: in every run whose edits are in place, any number of edits, full writes and compactions interleave,
  and the text of each document is explained by an order of the changes that landed on it; no change was overwritten by
  a write computed from a text read before it;
- `compaction_overwritten`: an edit that read MEMORY.md before a compaction landed overwrites it.
-/
import Mathlib.Tactic
import Clawbolt.Memory.Documents

namespace Clawbolt.Memory

open Text Register

/-- a change run on its own, on the text `t` -/
def Change.apply (d : Doc) : Change → Str → Option Str
  | .wrote content, _ => (assertWithinBudget d content).toOption.map fun _ => content
  | .edited old new _, t => (editText d old new t).toOption
  | .compacted content expectedCurrent, t => writeIfUnchanged d content expectedCurrent t

/-- the text the change was computed from is the one it replaced -/
def Commit.Current (d : Doc) (c : Commit) : Prop :=
  match c.change with
  | .wrote _ => True
  | .edited _ _ text => text = c.replaced
  | .compacted _ expectedCurrent => expectedCurrent = readForm d c.replaced

instance (d : Doc) (c : Commit) : Decidable (c.Current d) := by
  unfold Commit.Current; cases c.change <;> infer_instance

/-- No update is lost, from the first texts `t₀`. -/
structure NoLostUpdate (t₀ : Doc → Str) (s : St) : Prop where
  /-- some order of the changes that landed gives the text -/
  explained : ∀ d, Explained (Change.apply d) (t₀ d) ((s.log d).map Commit.change) (s.texts d)
  /-- no change was overwritten by a write computed from an older text -/
  current : ∀ d, ∀ c ∈ s.log d, c.Current d

/-- an edit that will write finds the text it read -/
def Call.InPlace (s : St) : Call → Prop
  | .edit d _ old new text => ∀ _t ∈ (editText d old new text).toOption, s.texts d = text
  | _ => True

instance (s : St) (c : Call) : Decidable (c.InPlace s) := by
  cases c <;> unfold Call.InPlace <;> infer_instance

/-- the call that runs next is in place -/
def InPlace (s : St) : Op → Prop
  | .resume i => ∀ c ∈ s.calls[i]?, c.InPlace s
  | _ => True

instance (s : St) (o : Op) : Decidable (InPlace s o) := by
  cases o <;> unfold InPlace <;> infer_instance

/-! ## The invariant -/

/-- what a compaction read is in the form the readers return -/
def Call.Normal : Call → Prop
  | .compaction c => ∀ t ∈ c.reads, strip t = t
  | _ => True

structure Inv (t₀ : Doc → Str) (s : St) : Prop where
  commits : ∀ d, Commits (Change.apply d) (t₀ d) ((s.log d).map Commit.change) (s.texts d)
  current : ∀ d, ∀ c ∈ s.log d, c.Current d
  calls : ∀ c ∈ s.calls, c.Normal

theorem inv_init (t₀ : Doc → Str) : Inv t₀ (init t₀) :=
  ⟨fun d => commits_nil _, by simp [init], by simp [init]⟩

theorem Inv.noLostUpdate {t₀ : Doc → Str} {s : St} (h : Inv t₀ s) : NoLostUpdate t₀ s :=
  ⟨fun d => (h.commits d).explained, h.current⟩

/-- a change that lands on the text it is applied to -/
theorem store_inv {t₀ : Doc → Str} {s : St} (h : Inv t₀ s) {d : Doc} {c : Change} {t : Str}
    (hc : c.apply d (s.texts d) = some t) (hcur : (Commit.mk c (s.texts d)).Current d) : Inv t₀ (s.store d c t) := by
  refine ⟨fun d' => ?_, fun d' x hx => ?_, h.calls⟩
  · rw [store_log, store_texts]
    by_cases hd : d' = d
    · subst hd
      simpa using commits_snoc (h.commits d') hc
    · simpa [hd] using h.commits d'
  · rw [store_log] at hx
    by_cases hd : d' = d
    · subst hd
      simp only [if_true, List.mem_append, List.mem_singleton] at hx
      rcases hx with hx | rfl
      · exact h.current d' x hx
      · exact hcur
    · simp only [hd, if_false] at hx
      exact h.current d' x hx

theorem addCall_inv {t₀ : Doc → Str} {s : St} (h : Inv t₀ s) {c : Call} (hc : c.Normal) :
    Inv t₀ { s with calls := s.calls ++ [c] } := by
  refine ⟨h.commits, h.current, fun x hx => ?_⟩
  rcases List.mem_append.1 hx with hx | hx
  · exact h.calls x hx
  · simp only [List.mem_singleton] at hx; exact hx ▸ hc

theorem setCall_inv {t₀ : Doc → Str} {s : St} (h : Inv t₀ s) (i : ℕ) {c : Call} (hc : c.Normal) :
    Inv t₀ (s.setCall i c) := by
  refine ⟨h.commits, h.current, fun x hx => ?_⟩
  rcases List.mem_or_eq_of_mem_set hx with hx | rfl
  · exact h.calls x hx
  · exact hc

/-! ## One step -/

theorem writeFile_inv {t₀ : Doc → Str} {s : St} (h : Inv t₀ s) (d : Doc) (path : String) (content : Str) :
    Inv t₀ (writeFile s d path content) := by
  unfold writeFile
  cases hb : assertWithinBudget d content with
  | error e => exact addCall_inv h trivial
  | ok u => exact addCall_inv (store_inv (c := .wrote content) h (by simp [Change.apply, hb, Except.toOption]) trivial) trivial

theorem resumeEdit_inv {t₀ : Doc → Str} {s : St} (h : Inv t₀ s) {i : ℕ} {d : Doc} {path : String} {old new text : Str}
    (hC : ∀ t ∈ (editText d old new text).toOption, s.texts d = text) : Inv t₀ (resumeEdit s i d path old new text) := by
  unfold resumeEdit
  cases he : editText d old new text with
  | error e => exact setCall_inv h i trivial
  | ok t =>
    have htext : s.texts d = text := hC t (by simp [he, Except.toOption])
    refine setCall_inv (store_inv (c := .edited old new text) h ?_ htext.symm) i trivial
    simp [Change.apply, htext, he, Except.toOption]

theorem compactDoc_inv {t₀ : Doc → Str} {s : St} (h : Inv t₀ s) (c : Compaction) (d : Doc) (update : Str) {expected : Str}
    (he : strip expected = expected) : Inv t₀ (compactDoc s c d update expected) := by
  unfold compactDoc
  split_ifs with hchg
  · cases hw : writeIfUnchanged d update expected (s.texts d) with
    | none => exact h
    | some t =>
      -- the compare-and-set landed, so the document reads as it did when the compaction read it
      obtain ⟨-, hread, -⟩ := writeIfUnchanged_eq_some.1 hw
      exact store_inv h hw (by rw [he] at hread; exact hread.symm)
  · exact h

theorem resumeCompaction_inv {t₀ : Doc → Str} {s : St} (h : Inv t₀ s) {i : ℕ} {c : Compaction}
    (hc : (Call.compaction c).Normal) : Inv t₀ (resumeCompaction s i c) := by
  unfold resumeCompaction
  cases hd : docs[c.reads.length]? with
  | some d =>
    refine setCall_inv h i fun t ht => ?_
    rcases List.mem_append.1 ht with ht | ht
    · exact hc t ht
    · simp only [List.mem_singleton] at ht
      exact ht ▸ strip_readForm d _
  | none =>
    simp only
    cases c.answer with
    | none => exact h
    | some r =>
      simp only
      split
      · next d t _ hread =>
        exact setCall_inv (compactDoc_inv h c d _ (hc t (List.mem_of_getElem? hread))) i hc
      · exact setCall_inv h i trivial

theorem step_inv {t₀ : Doc → Str} (s : St) (o : Op) (h : Inv t₀ s) (hC : InPlace s o) : Inv t₀ (step s o) := by
  cases o with
  | writeFile d path content => exact writeFile_inv h d path content
  | editFile d path old new => exact addCall_inv h trivial
  | compactSession hy => exact addCall_inv h (by simp [Call.Normal])
  | resume i =>
    simp only [step]
    cases hi : s.calls[i]? with
    | none => exact h
    | some c =>
      cases c with
      | edit d path old new text => exact resumeEdit_inv h (hC (.edit d path old new text) (by simp [hi]) :)
      | compaction c => exact resumeCompaction_inv h (h.calls _ (List.mem_of_getElem? hi))
      | returned r => exact h
      | finished => exact h
  | answer i r =>
    simp only [step]
    cases hi : s.calls[i]? with
    | none => exact h
    | some c =>
      cases c with
      | compaction c =>
        simp only
        split_ifs
        · exact setCall_inv h i (c := .compaction { c with answer := some r }) (h.calls _ (List.mem_of_getElem? hi) :)
        · exact h
      | edit d path old new text => exact h
      | returned r => exact h
      | finished => exact h

/-! ## Results -/

/-- **No lost update**, in every run whose edits are in place: any number of calls, on any of the documents, split at
every await. -/
theorem no_lost_update (t₀ : Doc → Str) (ops : List Op) (hC : Runs.Meets step InPlace (init t₀) ops) :
    NoLostUpdate t₀ (run (init t₀) ops) :=
  (Runs.run_inv step_inv hC (inv_init t₀)).noLostUpdate

/-- MEMORY.md names the crew; the other documents are empty -/
def crewTexts : Doc → Str
  | .memory => "crew 5\n".toList
  | _ => []

/-- a compaction reads the documents, an edit lands, and the compaction's answer is refused; the user is told nothing -/
def editFirstOps : List Op :=
  [.compactSession false, .resume 0, .resume 0, .resume 0, .editFile .memory "MEMORY.md" "5".toList "6".toList, .resume 1,
    .answer 0 ⟨"crew 5\ngate 12".toList, "Ann".toList, []⟩, .resume 0, .resume 0, .resume 0]

theorem no_lost_update_edit_first : NoLostUpdate crewTexts (run (init crewTexts) editFirstOps) :=
  no_lost_update crewTexts editFirstOps (by decide)

/-- the edit reads before the compaction lands, and writes after it -/
def editLastOps : List Op :=
  [.compactSession false, .resume 0, .resume 0, .resume 0, .editFile .memory "MEMORY.md" "5".toList "6".toList,
    .answer 0 ⟨"crew 5\ngate 12".toList, [], []⟩, .resume 0, .resume 1]

/-- **A stale edit wins.** Both changes landed; no order of them gives the text, which lost the gate code. -/
theorem compaction_overwritten : ¬ NoLostUpdate crewTexts (run (init crewTexts) editLastOps) := by
  intro h
  have hx := h.explained .memory
  have hlog : ((run (init crewTexts) editLastOps).log .memory).map Commit.change =
      [.compacted "crew 5\ngate 12".toList "crew 5".toList, .edited "5".toList "6".toList "crew 5\n".toList] := by decide
  have htext : (run (init crewTexts) editLastOps).texts .memory = "crew 6\n".toList := by decide
  rw [hlog, htext, explained_pair] at hx
  revert hx
  decide

end Clawbolt.Memory
