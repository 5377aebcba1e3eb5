/-
Documents that are shown once, and then only what changes of them. The documents `D`, the texts `T` and the rendering of a
change are arbitrary.

- `Leads render d ts e`: the texts `ts` are a chain of changes from `d` to `e`;
- `Linked render d log`: a log of texts, each with the documents that it leads to;
- `leads_of_linked`: a linked log is a chain, and stays linked when it is cut short (`Linked.take`) or grows
  (`Linked.snoc`).
-/
import Mathlib.Tactic

namespace Deltas

variable {D T : Type*}

/-- each text is the change between the documents before it and after it -/
inductive Leads (render : D → D → T) : D → List T → D → Prop where
  | nil (d : D) : Leads render d [] d
  | cons {d e f : D} {ts : List T} (h : Leads render e ts f) : Leads render d (render d e :: ts) f

/-- each entry of the log is the change from the entry before it -/
def Linked (render : D → D → T) : D → List (T × D) → Prop
  | _, [] => True
  | d, (t, e) :: log => t = render d e ∧ Linked render e log

/-- the documents at the end of the log -/
def last : D → List (T × D) → D
  | d, [] => d
  | _, (_, e) :: log => last e log

variable {render : D → D → T}

theorem leads_of_linked {d : D} {log : List (T × D)} (h : Linked render d log) :
    Leads render d (log.map Prod.fst) (last d log) := by
  induction log generalizing d with
  | nil => exact .nil d
  | cons x log ih =>
    obtain ⟨t, e⟩ := x
    obtain ⟨rfl, h⟩ := h
    exact .cons (ih h)

theorem Linked.take {d : D} {log : List (T × D)} (h : Linked render d log) (n : ℕ) : Linked render d (log.take n) := by
  induction log generalizing d n with
  | nil => simpa using h
  | cons x log ih =>
    obtain ⟨t, e⟩ := x
    cases n with
    | zero => exact True.intro
    | succ n => exact ⟨h.1, ih h.2 n⟩

theorem Linked.snoc {d : D} {log : List (T × D)} (h : Linked render d log) (e : D) :
    Linked render d (log ++ [(render (last d log) e, e)]) := by
  induction log generalizing d with
  | nil => exact ⟨rfl, True.intro⟩
  | cons x log ih =>
    obtain ⟨t, e'⟩ := x
    exact ⟨h.1, ih h.2⟩

theorem last_snoc (d : D) (log : List (T × D)) (x : T × D) : last d (log ++ [x]) = x.2 := by
  induction log generalizing d with
  | nil => rfl
  | cons y log ih => exact ih y.2

end Deltas
