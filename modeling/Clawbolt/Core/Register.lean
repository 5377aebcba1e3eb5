/-
A register that several actors change, and what it means that no update is lost. A change is a partial function of the
register's value: it may refuse. The changes that landed are logged. Everything here is over arbitrary values `τ` and
changes `γ`.

- `replay`: the log applied to the first value, one change after the other;
- `Explained`: some order of the logged changes, replayed, gives the register's value;
- `Commits`: the log itself does, in the order the changes landed. It is kept by every change that lands on the value it
  is applied to (`commits_snoc`), and it explains the value (`Commits.explained`).
-/
import Mathlib.Tactic

namespace Register

variable {τ γ : Type*} (apply : γ → τ → Option τ)

/-- the changes, one after the other -/
def replay : τ → List γ → Option τ
  | t, [] => some t
  | t, c :: cs => (apply c t).bind fun t' => replay t' cs

/-- some order of the changes gives the value `t` -/
def Explained (t₀ : τ) (log : List γ) (t : τ) : Prop := ∃ order : List γ, order.Perm log ∧ replay apply t₀ order = some t

/-- the log gives the value `t` in the order it was written -/
def Commits (t₀ : τ) (log : List γ) (t : τ) : Prop := replay apply t₀ log = some t

theorem replay_append (t : τ) (a b : List γ) :
    replay apply t (a ++ b) = (replay apply t a).bind fun t' => replay apply t' b := by
  induction a generalizing t with
  | nil => rfl
  | cons c a ih => simp [replay, ih, Option.bind_assoc]

variable {apply}

theorem commits_nil (t : τ) : Commits apply t [] t := rfl

/-- a change that lands on the current value -/
theorem commits_snoc {t₀ t t' : τ} {log : List γ} {c : γ} (h : Commits apply t₀ log t) (hc : apply c t = some t') :
    Commits apply t₀ (log ++ [c]) t' := by
  unfold Commits at h ⊢
  rw [replay_append, h]
  simp [replay, hc]

theorem Commits.explained {t₀ t : τ} {log : List γ} (h : Commits apply t₀ log t) : Explained apply t₀ log t :=
  ⟨log, List.Perm.refl _, h⟩

/-- the orders of two changes -/
theorem explained_pair {t₀ t : τ} {a b : γ} :
    Explained apply t₀ [a, b] t ↔ replay apply t₀ [a, b] = some t ∨ replay apply t₀ [b, a] = some t := by
  constructor
  · rintro ⟨order, hp, h⟩
    have hm : order ∈ [a, b].permutations' := List.mem_permutations'.2 hp
    simp only [List.permutations', List.permutations'Aux, List.flatMap_cons, List.flatMap_nil, List.map_cons, List.map_nil,
      List.append_nil, List.mem_cons, List.not_mem_nil, or_false] at hm
    rcases hm with rfl | rfl
    · exact Or.inl h
    · exact Or.inr h
  · rintro (h | h)
    · exact ⟨_, List.Perm.refl _, h⟩
    · exact ⟨_, List.Perm.swap _ _ _, h⟩

end Register
