/-
Searches for a pattern `c :: p` that has its first character nowhere else, such as the start of a line.

- `infix_line`: where such a pattern can lie in a text with the character in it;
- `splitFirst_line`, `splitFirst_append`: what the search for the first occurrence finds, and keeps finding in a longer text.
-/
import Mathlib.Tactic
import Clawbolt.Core.Text

namespace Text

theorem contains_iff {pat t : Str} : contains pat t = true ↔ pat <:+: t := by
  rw [contains, List.any_eq_true]
  constructor
  · rintro ⟨s, hs, hpat⟩
    exact (List.isPrefixOf_iff_prefix.1 hpat).isInfix.trans ((List.mem_tails s t).1 hs).isInfix
  · intro h
    obtain ⟨s, hpre, hsuf⟩ := List.infix_iff_prefix_suffix.1 h
    exact ⟨s, (List.mem_tails s t).2 hsuf, List.isPrefixOf_iff_prefix.2 hpre⟩

theorem splitFirst_eq_none_iff {pat t : Str} : splitFirst pat t = none ↔ ¬ pat <:+: t := by
  rw [splitFirst_eq_none, ← contains_iff, Bool.not_eq_true]

/-- what was found -/
theorem eq_of_splitFirst {pat t x y : Str} (h : splitFirst pat t = some (x, y)) : t = x ++ pat ++ y := by
  induction t generalizing x with
  | nil =>
    rw [splitFirst] at h
    split_ifs at h with hpat
    obtain ⟨rfl, rfl⟩ := Prod.mk.inj (Option.some.inj h)
    rw [hpat]
    rfl
  | cons c t ih =>
    rw [splitFirst] at h
    split_ifs at h with hpre
    · obtain ⟨rfl, rfl⟩ := Prod.mk.inj (Option.some.inj h)
      obtain ⟨z, hz⟩ := List.isPrefixOf_iff_prefix.1 hpre
      rw [← hz, List.drop_left, List.nil_append]
    · obtain ⟨⟨a, b⟩, hab, heq⟩ := Option.map_eq_some_iff.1 h
      obtain ⟨rfl, rfl⟩ := Prod.mk.inj heq
      rw [ih hab]
      rfl

/-- the first occurrence stays the first in a longer text -/
theorem splitFirst_append {pat t x y : Str} (h : splitFirst pat t = some (x, y)) (hpat : pat ≠ []) (z : Str) :
    splitFirst pat (t ++ z) = some (x, y ++ z) := by
  induction t generalizing x with
  | nil =>
    rw [splitFirst, if_neg hpat] at h
    cases h
  | cons c t ih =>
    rw [splitFirst] at h
    rw [List.cons_append, splitFirst]
    split_ifs at h with hpre
    · obtain ⟨rfl, rfl⟩ := Prod.mk.inj (Option.some.inj h)
      have hle := (List.isPrefixOf_iff_prefix.1 hpre).length_le
      have hpre' : pat.isPrefixOf (c :: (t ++ z)) = true :=
        List.isPrefixOf_iff_prefix.2 ((List.isPrefixOf_iff_prefix.1 hpre).trans (List.prefix_append (c :: t) z))
      rw [if_pos hpre', ← List.cons_append, List.drop_append_of_le_length hle]
    · obtain ⟨⟨a, b⟩, hab, heq⟩ := Option.map_eq_some_iff.1 h
      obtain ⟨rfl, rfl⟩ := Prod.mk.inj heq
      -- a match that begins here would be a match in the shorter text, which has room for a later one
      have hnot : ¬ pat.isPrefixOf (c :: (t ++ z)) = true := by
        intro hlong
        refine hpre (List.isPrefixOf_iff_prefix.2 ?_)
        have hlen := congrArg List.length (eq_of_splitFirst hab)
        simp only [List.length_append] at hlen
        refine List.prefix_of_prefix_length_le (List.isPrefixOf_iff_prefix.1 hlong) (List.prefix_append (c :: t) z) ?_
        rw [List.length_cons]
        omega
      rw [if_neg hnot, ih hab]
      rfl

section

variable {c : Char} {p : Str} (hc : c ∉ p)

include hc

theorem prefix_line {x y : Str} (h : p <+: x ++ c :: y) : p <+: x := by
  rcases List.prefix_or_prefix_of_prefix h (List.prefix_append x (c :: y)) with hin | ⟨q, rfl⟩
  · exact hin
  · cases q with
    | nil => rw [List.append_nil]
    | cons d q =>
      obtain ⟨rfl, -⟩ := List.cons_prefix_cons.1 ((List.prefix_append_right_inj x).1 h)
      exact absurd (List.mem_append_right x List.mem_cons_self) hc

/-- a pattern lies in front of the character, starts with it, or lies behind it -/
theorem infix_line {x y : Str} (h : c :: p <:+: x ++ c :: y) : c :: p <:+: x ∨ p <+: y ∨ c :: p <:+: y := by
  induction x with
  | nil =>
    rcases List.infix_cons_iff.1 h with hpre | hrest
    · exact .inr (.inl (List.cons_prefix_cons.1 hpre).2)
    · exact .inr (.inr hrest)
  | cons d x ih =>
    rcases List.infix_cons_iff.1 h with hpre | hrest
    · obtain ⟨rfl, hp⟩ := List.cons_prefix_cons.1 hpre
      exact .inl (List.cons_prefix_cons.2 ⟨rfl, prefix_line hc hp⟩).isInfix
    · exact (ih hrest).imp_left fun hx => hx.trans (List.suffix_cons d x).isInfix

/-- the first occurrence behind a text without one -/
theorem splitFirst_line {a : Str} (ha : ¬ c :: p <:+: a) (z : Str) : splitFirst (c :: p) (a ++ c :: (p ++ z)) = some (a, z) := by
  induction a with
  | nil =>
    have hpre : (c :: p).isPrefixOf (c :: (p ++ z)) = true := List.isPrefixOf_iff_prefix.2 (List.prefix_append (c :: p) z)
    rw [List.nil_append, splitFirst, if_pos hpre, List.length_cons, List.drop_succ_cons, List.drop_left]
  | cons d a ih =>
    have hnot : ¬ (c :: p).isPrefixOf (d :: (a ++ c :: (p ++ z))) = true := by
      intro hpre
      obtain ⟨rfl, hp⟩ := List.cons_prefix_cons.1 (List.isPrefixOf_iff_prefix.1 hpre)
      exact ha (List.cons_prefix_cons.2 ⟨rfl, prefix_line hc hp⟩).isInfix
    rw [List.cons_append, splitFirst, if_neg hnot, ih fun h => ha (h.trans (List.suffix_cons d a).isInfix)]
    rfl

end

end Text
