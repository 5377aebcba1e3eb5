/-
Computations that may fail, in `Except` and in `Option`: what the success of a sequence says of its parts. Everything here is over
arbitrary errors and values.
-/
import Mathlib.Tactic

namespace Fallible

variable {ε α β : Type}

/-- a sequence succeeds when both parts do -/
theorem bind_eq_ok {x : Except ε α} {f : α → Except ε β} {b : β} :
    (x >>= f) = .ok b ↔ ∃ a, x = .ok a ∧ f a = .ok b := by
  cases x <;> simp [bind, Except.bind]

/-- a concrete computation that succeeds with a checked value -/
theorem exists_ok {x : Except ε α} {p : α → Prop} [DecidablePred p]
    (h : (match x with | .ok a => decide (p a) | .error _ => false) = true) : ∃ a, x = .ok a ∧ p a := by
  cases x with
  | error e => exact absurd h Bool.false_ne_true
  | ok a => exact ⟨a, rfl, of_decide_eq_true h⟩

/-- a traversal succeeds when it succeeds at every item -/
theorem mapM_forall₂ {f : α → Except ε β} {l : List α} {r : List β} (h : l.mapM f = .ok r) :
    List.Forall₂ (fun a b => f a = .ok b) l r := by
  induction l generalizing r with
  | nil =>
    simp only [List.mapM_nil, pure, Except.pure, Except.ok.injEq] at h
    subst h
    exact .nil
  | cons a l ih =>
    rw [List.mapM_cons] at h
    obtain ⟨b, hb, h⟩ := bind_eq_ok.1 h
    obtain ⟨r', hr, h⟩ := bind_eq_ok.1 h
    obtain rfl := Except.ok.inj h
    exact .cons hb (ih hr)

/-- a traversal in `Option` has a value when it has one at every item -/
theorem mapM_option_iff (f : α → Option β) (l : List α) (r : List β) :
    l.mapM f = some r ↔ List.Forall₂ (fun a b => f a = some b) l r := by
  induction l generalizing r with
  | nil => simp [eq_comm]
  | cons a l ih =>
    rw [List.mapM_cons, List.forall₂_cons_left_iff]
    constructor
    · intro h
      obtain ⟨b, hb, h⟩ := Option.bind_eq_some_iff.1 h
      obtain ⟨r', hr, h⟩ := Option.bind_eq_some_iff.1 h
      exact ⟨b, r', hb, (ih r').1 hr, (Option.some.inj h).symm⟩
    · rintro ⟨b, r', hb, hr, rfl⟩
      exact Option.bind_eq_some_iff.2 ⟨b, hb, Option.bind_eq_some_iff.2 ⟨r', (ih r').2 hr, rfl⟩⟩

/-- a traversal that leaves every item as it is -/
theorem mapM_self {f : α → Except ε α} {l : List α} (h : ∀ a ∈ l, f a = .ok a) : l.mapM f = .ok l := by
  induction l with
  | nil => rfl
  | cons a l ih =>
    rw [List.mapM_cons, h a List.mem_cons_self, ih fun x hx => h x (List.mem_cons_of_mem _ hx)]
    rfl

end Fallible
