/-
Left-to-right passes with a state: a pass reads a list once, and each item makes it emit some outputs and move to a
new state. Everything here is over arbitrary items `α`, outputs `β` and states `σ`.

- `out_append`: a pass over `a ++ b` is the pass over `a`, then the pass over `b` from where it ended;
- `out_all`: what every emission from a state with the invariant satisfies, every output satisfies;
- `forall₂_out`: two passes over one list whose emissions are related item by item have related outputs;
- `out_andThen`: a pass over the output of a pass is one pass.
-/
import Mathlib.Tactic

namespace Passes

/-- a pass: what an item emits, and the state it leaves -/
structure Pass (σ α β : Type*) where
  emit : σ → α → List β
  next : σ → α → σ

namespace Pass

variable {σ τ α β γ : Type*} (P : Pass σ α β)

/-- the state after the items -/
def after (s : σ) (l : List α) : σ := l.foldl P.next s

/-- everything emitted, in order -/
def out : σ → List α → List β
  | _, [] => []
  | s, a :: l => P.emit s a ++ out (P.next s a) l

@[simp] theorem after_nil (s : σ) : P.after s [] = s := rfl

@[simp] theorem after_cons (s : σ) (a : α) (l : List α) : P.after s (a :: l) = P.after (P.next s a) l := rfl

@[simp] theorem out_nil (s : σ) : P.out s [] = [] := rfl

@[simp] theorem out_cons (s : σ) (a : α) (l : List α) : P.out s (a :: l) = P.emit s a ++ P.out (P.next s a) l := rfl

theorem out_append (s : σ) (a b : List α) : P.out s (a ++ b) = P.out s a ++ P.out (P.after s a) b := by
  induction a generalizing s with
  | nil => rfl
  | cons x a ih => simp [ih]

/-- **Output rule.** If items of the list keep the invariant and emit only `Q` from states that have it, every output
is `Q`. -/
theorem out_all {I : σ → Prop} {Q : β → Prop} {s : σ} {l : List α} (h : I s)
    (hnext : ∀ s, ∀ a ∈ l, I s → I (P.next s a)) (hemit : ∀ s, ∀ a ∈ l, I s → ∀ y ∈ P.emit s a, Q y) :
    ∀ y ∈ P.out s l, Q y := by
  induction l generalizing s with
  | nil => simp
  | cons a l ih =>
    intro y hy
    rcases List.mem_append.1 hy with hy | hy
    · exact hemit s a List.mem_cons_self h y hy
    · exact ih (hnext s a List.mem_cons_self h) (fun s b hb => hnext s b (List.mem_cons_of_mem _ hb))
        (fun s b hb => hemit s b (List.mem_cons_of_mem _ hb)) y hy

/-- **Relational rule.** Two passes over one list, from related states, whose items emit related outputs and leave
related states, have related outputs. -/
theorem forall₂_out (Q : Pass τ α γ) {R : σ → τ → Prop} {T : β → γ → Prop} {s : σ} {t : τ} {l : List α} (h : R s t)
    (hnext : ∀ s t, ∀ a ∈ l, R s t → R (P.next s a) (Q.next t a))
    (hemit : ∀ s t, ∀ a ∈ l, R s t → List.Forall₂ T (P.emit s a) (Q.emit t a)) :
    List.Forall₂ T (P.out s l) (Q.out t l) := by
  induction l generalizing s t with
  | nil => exact List.Forall₂.nil
  | cons a l ih =>
    exact List.rel_append (hemit s t a List.mem_cons_self h)
      (ih (hnext s t a List.mem_cons_self h) (fun s t b hb => hnext s t b (List.mem_cons_of_mem _ hb))
        (fun s t b hb => hemit s t b (List.mem_cons_of_mem _ hb)))

/-- related lists whose parts have equal lengths have related middle parts -/
theorem forall₂_middle {T : β → γ → Prop} {a e b : List β} {a' e' b' : List γ} (ha : a.length = a'.length)
    (he : e.length = e'.length) (h : List.Forall₂ T (a ++ (e ++ b)) (a' ++ (e' ++ b'))) : List.Forall₂ T e e' := by
  have h1 := List.forall₂_drop a.length h
  rw [List.drop_left, ha, List.drop_left] at h1
  have h2 := List.forall₂_take e.length h1
  rwa [List.take_left, he, List.take_left] at h2

/-- **What related outputs say of one item**, when the two passes emit equally much from related states. -/
theorem forall₂_emit (Q : Pass τ α γ) {R : σ → τ → Prop} {T : β → γ → Prop} {s : σ} {t : τ} {pre post : List α} {a : α}
    (hR : R s t) (hnext : ∀ s t a, R s t → R (P.next s a) (Q.next t a))
    (hlen : ∀ s t a, R s t → (P.emit s a).length = (Q.emit t a).length)
    (h : List.Forall₂ T (P.out s (pre ++ a :: post)) (Q.out t (pre ++ a :: post))) :
    ∃ s' t', R s' t' ∧ List.Forall₂ T (P.emit s' a) (Q.emit t' a) := by
  induction pre generalizing s t with
  | nil => exact ⟨s, t, hR, forall₂_middle (List.length_nil.trans List.length_nil.symm) (hlen s t a hR) h⟩
  | cons b pre ih =>
    refine ih (hnext s t b hR) ?_
    have hd := List.forall₂_drop (P.emit s b).length h
    rw [List.cons_append, out_cons, out_cons, List.drop_left, hlen s t b hR, List.drop_left] at hd
    exact hd

/-- `Q` reads what `P` emits -/
def andThen (Q : Pass τ β γ) : Pass (σ × τ) α γ :=
  ⟨fun s a => Q.out s.2 (P.emit s.1 a), fun s a => (P.next s.1 a, Q.after s.2 (P.emit s.1 a))⟩

/-- **Composition rule.** Reading the output of a pass item by item is reading it whole. -/
theorem out_andThen (Q : Pass τ β γ) (s : σ) (t : τ) (l : List α) :
    (P.andThen Q).out (s, t) l = Q.out t (P.out s l) := by
  induction l generalizing s t with
  | nil => rfl
  | cons a l ih => simp only [out_cons, out_append, andThen] at ih ⊢; rw [ih]

end Pass

end Passes
