/-
POSIX path texts (`PurePosixPath`): the parts of a path, its name, its parent and its suffix. An empty part and a part `.`
are dropped; `..` stays.

- `parts_append_slash`: a slash splits the parts;
- `parts_eq_singleton`: a text without a slash is one part;
- `mem_parts`: a part is a piece of the text without a slash.
-/
import Mathlib.Tactic
import Clawbolt.Core.Text

namespace PosixPath

open Text (Str)

/-- a part that is kept -/
def kept (part : Str) : Bool := part ≠ [] && part ≠ ['.']

/-- the parts of a path, its root apart -/
def parts (t : Str) : List Str := (t.splitOn '/').filter kept

/-- `Path(t).name` -/
def name (t : Str) : Str := (parts t).getLast?.getD []

/-- `str(Path(t).parent)` of a relative path -/
def parentText (t : Str) : Str :=
  match (parts t).dropLast with
  | [] => ".".toList
  | parents => Text.join "/".toList parents

/-- `suffix` of a name: from its last dot, unless it starts or ends the name -/
def suffix (name : Str) : Str :=
  let after := name.reverse.takeWhile (· ≠ '.')
  if after ≠ [] ∧ after.length + 1 < name.length then '.' :: after.reverse else []

/-- the parts of a path put after `start` and read one by one; `..` takes a part back -/
def walk (start : List Str) (parts : List Str) : List Str :=
  parts.foldl (fun at_ part => if part = "..".toList then at_.dropLast else at_ ++ [part]) start

theorem parts_append_slash (a b : Str) : parts (a ++ '/' :: b) = parts a ++ parts b := by
  rw [parts, List.splitOn_append_cons_self, List.filter_append]
  rfl

theorem parts_eq_singleton {t : Str} (h : '/' ∉ t) (hkept : kept t = true) : parts t = [t] := by
  rw [parts, List.splitOn_eq_singleton h, List.filter_cons_of_pos hkept]
  rfl

theorem parts_eq_nil {t : Str} (h : '/' ∉ t) (hkept : kept t = false) : parts t = [] := by
  rw [parts, List.splitOn_eq_singleton h, List.filter_cons_of_neg (by simp [hkept])]
  rfl

/-- a part is a piece of the text without a slash -/
theorem mem_parts {t part : Str} (h : part ∈ parts t) : part <:+: t ∧ '/' ∉ part := by
  induction hn : t.length using Nat.strong_induction_on generalizing t with
  | _ n ih =>
    by_cases hslash : '/' ∈ t
    · obtain ⟨a, b, rfl⟩ := List.append_of_mem hslash
      rw [parts_append_slash] at h
      rw [List.length_append, List.length_cons] at hn
      rcases List.mem_append.1 h with h | h
      · obtain ⟨hin, hno⟩ := ih a.length (by omega) h rfl
        exact ⟨hin.trans (List.prefix_append _ _).isInfix, hno⟩
      · obtain ⟨hin, hno⟩ := ih b.length (by omega) h rfl
        exact ⟨hin.trans ((List.suffix_cons _ _).trans (List.suffix_append _ _)).isInfix, hno⟩
    · cases hkept : kept t with
      | true =>
        rw [parts_eq_singleton hslash hkept, List.mem_singleton] at h
        rw [h]
        exact ⟨List.infix_refl _, hslash⟩
      | false =>
        rw [parts_eq_nil hslash hkept] at h
        cases h

theorem split_last_slash {t : Str} (h : '/' ∈ t) : ∃ a b, t = a ++ '/' :: b ∧ '/' ∉ b := by
  obtain ⟨b, a, heq, hb⟩ := List.eq_append_cons_of_mem (List.mem_reverse.2 h)
  refine ⟨a.reverse, b.reverse, ?_, by simpa using hb⟩
  rw [← List.reverse_reverse t, heq]
  simp

/-- the name is a part, or empty -/
theorem name_mem {t : Str} (h : name t ≠ []) : name t ∈ parts t := by
  unfold name at h ⊢
  cases hlast : (parts t).getLast? with
  | none => exact absurd (by rw [hlast]; rfl) h
  | some part => exact List.mem_of_getLast? hlast

/-- the name of a path that ends in a part -/
theorem name_append_slash (a : Str) {b : Str} (h : '/' ∉ b) (hkept : kept b = true) : name (a ++ '/' :: b) = b := by
  rw [name, parts_append_slash, parts_eq_singleton h hkept, List.getLast?_concat, Option.getD_some]

/-- a parent of one name is the only other part -/
theorem parentText_eq_iff {t parent : Str} (h : '/' ∉ parent) (hkept : kept parent = true) :
    parentText t = parent ↔ (parts t).dropLast = [parent] := by
  unfold parentText
  constructor
  · intro heq
    split at heq
    · rw [← heq] at hkept
      cases hkept
    · rename_i parents hne
      cases hp : (parts t).dropLast with
      | nil => exact absurd hp hne
      | cons first others =>
        cases others with
        | nil =>
          rw [hp] at heq
          rw [← heq]
          simp [Text.join]
        | cons second others =>
          rw [hp] at heq
          refine absurd ?_ h
          rw [← heq]
          simp [Text.join, List.intercalate, List.intersperse]
  · intro heq
    rw [heq]
    simp [Text.join]

end PosixPath
