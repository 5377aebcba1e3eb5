/-
Runs of a machine whose operations interleave arbitrarily. A machine is a total step function: an operation that is
not enabled in a state leaves the state as it is. Everything here is over arbitrary states `σ` and operations `ι`.

- `run`: the state after a list of operations;
- `Meets C`: every operation of the list meets the condition `C` in the state it is taken in;
- `run_inv`: the invariant rule (what a step that meets `C` preserves holds after every run that meets `C`);
- `meets_iff`: conditions that agree where the invariant holds.
-/
import Mathlib.Tactic

namespace Runs

variable {σ ι : Type*}

/-- the state after the operations, in order -/
def run (step : σ → ι → σ) (s : σ) (ops : List ι) : σ := ops.foldl step s

@[simp] theorem run_nil (step : σ → ι → σ) (s : σ) : run step s [] = s := rfl

@[simp] theorem run_cons (step : σ → ι → σ) (s : σ) (o : ι) (ops : List ι) :
    run step s (o :: ops) = run step (step s o) ops := rfl

theorem run_append (step : σ → ι → σ) (s : σ) (a b : List ι) : run step s (a ++ b) = run step (run step s a) b := by
  simp [run, List.foldl_append]

theorem run_snoc (step : σ → ι → σ) (s : σ) (ops : List ι) (o : ι) :
    run step s (ops ++ [o]) = step (run step s ops) o := by
  simp [run, List.foldl_append]

/-- every operation meets `C` in the state it is taken in -/
def Meets (step : σ → ι → σ) (C : σ → ι → Prop) : σ → List ι → Prop
  | _, [] => True
  | s, o :: ops => C s o ∧ Meets step C (step s o) ops

instance decMeets (step : σ → ι → σ) (C : σ → ι → Prop) [∀ s o, Decidable (C s o)] :
    (s : σ) → (ops : List ι) → Decidable (Meets step C s ops)
  | _, [] => inferInstanceAs (Decidable True)
  | s, o :: ops => @instDecidableAnd _ _ _ (decMeets step C (step s o) ops)

/-- a condition on the operations alone -/
theorem meets_of_forall {step : σ → ι → σ} {C : σ → ι → Prop} {ops : List ι} (h : ∀ o ∈ ops, ∀ s, C s o) (s : σ) :
    Meets step C s ops := by
  induction ops generalizing s with
  | nil => trivial
  | cons o ops ih =>
    obtain ⟨ho, hops⟩ := List.forall_mem_cons.1 h
    exact ⟨ho s, ih hops (step s o)⟩

theorem meets_append (step : σ → ι → σ) (C : σ → ι → Prop) (s : σ) (a b : List ι) :
    Meets step C s (a ++ b) ↔ Meets step C s a ∧ Meets step C (run step s a) b := by
  induction a generalizing s with
  | nil => simp [Meets]
  | cons o a ih => simp [Meets, ih, and_assoc]

theorem meets_and {step : σ → ι → σ} {C D : σ → ι → Prop} {s : σ} {ops : List ι} (hC : Meets step C s ops)
    (hD : Meets step D s ops) : Meets step (fun s o => C s o ∧ D s o) s ops := by
  induction ops generalizing s with
  | nil => trivial
  | cons o ops ih => exact ⟨⟨hC.1, hD.1⟩, ih hC.2 hD.2⟩

/-- what a step that meets `C` has where the invariant holds, every step of a run that meets `C` has -/
theorem meets_inv {step : σ → ι → σ} {C D : σ → ι → Prop} {I : σ → Prop} (hstep : ∀ s o, I s → C s o → I (step s o))
    (hD : ∀ s o, I s → C s o → D s o) {s : σ} {ops : List ι} (h : I s) (hC : Meets step C s ops) : Meets step D s ops := by
  induction ops generalizing s with
  | nil => trivial
  | cons o ops ih => exact ⟨hD s o h hC.1, ih (hstep s o h hC.1) hC.2⟩

/-- a condition that follows from another one, where the invariant holds -/
theorem meets_mono {step : σ → ι → σ} {C D : σ → ι → Prop} {I : σ → Prop} (hstep : ∀ s o, I s → I (step s o))
    (hCD : ∀ s o, I s → C s o → D s o) {s : σ} {ops : List ι} (h : I s) (hC : Meets step C s ops) : Meets step D s ops :=
  meets_inv (fun s o h _ => hstep s o h) hCD h hC

/-- **Invariant rule.** What every step that meets `C` preserves holds after every run that meets `C`. -/
theorem run_inv {step : σ → ι → σ} {C : σ → ι → Prop} {I : σ → Prop} (hstep : ∀ s o, I s → C s o → I (step s o))
    {s : σ} {ops : List ι} (hC : Meets step C s ops) (h : I s) : I (run step s ops) := by
  induction ops generalizing s with
  | nil => exact h
  | cons o ops ih => exact ih hC.2 (hstep s o h hC.1)

/-- two conditions that agree where the invariant holds are met by the same runs -/
theorem meets_iff {step : σ → ι → σ} {C D : σ → ι → Prop} {I : σ → Prop} (hiff : ∀ s o, I s → (D s o ↔ C s o))
    (hstep : ∀ s o, I s → C s o → I (step s o)) {s : σ} {ops : List ι} (h : I s) : Meets step D s ops ↔ Meets step C s ops := by
  induction ops generalizing s with
  | nil => rfl
  | cons o ops ih =>
    simp only [Meets, hiff s o h]
    refine and_congr_right fun hC => ih (hstep s o h hC)

/-- the invariant rule with no condition on the operations -/
theorem run_inv_all {step : σ → ι → σ} {I : σ → Prop} (hstep : ∀ s o, I s → I (step s o)) (s : σ) (ops : List ι)
    (h : I s) : I (run step s ops) := by
  induction ops generalizing s with
  | nil => exact h
  | cons o ops ih => exact ih _ (hstep s o h)

end Runs
