/-
A search for a text that stands on its own, as a regular expression with a lookbehind and a lookahead makes it: neither the
character before an occurrence nor the one after it is a `word` character.

- `hasToken_iff`: what the search finds;
- `hasToken_around`: what is found stays found in a longer text that does not continue a word;
- `hasToken_separated`: a character that is in no word and not searched for separates a text.
-/
import Mathlib.Tactic
import Clawbolt.Core.Text

namespace Text

/-- whether `pat` occurs in a text on its own, `prev` being the character before the text -/
def tokenFrom (word : Char → Bool) (pat : Str) : Option Char → Str → Bool
  | prev, [] => pat = [] && !prev.any word
  | prev, c :: t =>
    (pat.isPrefixOf (c :: t) && !prev.any word && !((c :: t).drop pat.length).head?.any word) ||
      tokenFrom word pat (some c) t

def hasToken (word : Char → Bool) (pat t : Str) : Bool := tokenFrom word pat none t

/-- an occurrence on its own -/
def Stands (word : Char → Bool) (prev : Option Char) (a b : Str) : Prop :=
  (a.getLast?.or prev).any word = false ∧ b.head?.any word = false

theorem last_cons (c : Char) (a : Str) (prev : Option Char) : (c :: a).getLast?.or prev = a.getLast?.or (some c) := by
  rw [List.getLast?_cons]
  cases a.getLast? with
  | none => rfl
  | some d => rfl

theorem tokenFrom_iff {word : Char → Bool} {pat : Str} {prev : Option Char} {t : Str} :
    tokenFrom word pat prev t = true ↔ ∃ a b, t = a ++ pat ++ b ∧ Stands word prev a b := by
  induction t generalizing prev with
  | nil =>
    simp only [tokenFrom, Bool.and_eq_true, decide_eq_true_eq, Bool.not_eq_true', Stands]
    constructor
    · rintro ⟨rfl, h⟩
      exact ⟨[], [], rfl, h, rfl⟩
    · rintro ⟨a, b, h, hstands⟩
      rw [List.append_assoc, eq_comm, List.append_eq_nil_iff, List.append_eq_nil_iff] at h
      obtain ⟨rfl, rfl, rfl⟩ := h
      exact ⟨rfl, hstands.1⟩
  | cons c t ih =>
    simp only [tokenFrom, Bool.or_eq_true, Bool.and_eq_true, Bool.not_eq_true', ih]
    constructor
    · rintro (⟨⟨hpat, hprev⟩, hnext⟩ | ⟨a, b, h, hbefore, hafter⟩)
      · obtain ⟨b, hb⟩ := List.isPrefixOf_iff_prefix.1 hpat
        rw [← hb, List.drop_left] at hnext
        exact ⟨[], b, hb.symm, hprev, hnext⟩
      · refine ⟨c :: a, b, by rw [h]; rfl, ?_, hafter⟩
        rw [last_cons]
        exact hbefore
    · rintro ⟨a, b, h, hbefore, hafter⟩
      cases a with
      | nil =>
        left
        rw [List.nil_append] at h
        rw [h, List.drop_left]
        exact ⟨⟨List.isPrefixOf_iff_prefix.2 (List.prefix_append _ _), hbefore⟩, hafter⟩
      | cons d a =>
        obtain ⟨rfl, rfl⟩ := List.cons.inj h
        right
        rw [last_cons] at hbefore
        exact ⟨a, b, rfl, hbefore, hafter⟩

/-- what the search finds -/
theorem hasToken_iff {word : Char → Bool} {pat t : Str} :
    hasToken word pat t = true ↔
      ∃ a b, t = a ++ pat ++ b ∧ a.getLast?.any word = false ∧ b.head?.any word = false := by
  simp only [hasToken, tokenFrom_iff, Stands, Option.or_none]

theorem hasToken_around {word : Char → Bool} {pat x t y : Str} (hx : ∀ c ∈ x.getLast?, word c = false)
    (hy : ∀ c ∈ y.head?, word c = false) (h : hasToken word pat t = true) : hasToken word pat (x ++ t ++ y) = true := by
  obtain ⟨a, b, rfl, ha, hb⟩ := hasToken_iff.1 h
  refine hasToken_iff.2 ⟨x ++ a, b ++ y, by simp only [List.append_assoc], ?_, ?_⟩
  · cases a with
    | nil =>
      rw [List.append_nil, Option.any_eq_false]
      exact hx
    | cons c a =>
      rw [List.getLast?_append_of_ne_nil x (List.cons_ne_nil c a)]
      exact ha
  · cases b with
    | nil =>
      rw [List.nil_append, Option.any_eq_false]
      exact hy
    | cons c b => exact hb

theorem hasToken_separated {word : Char → Bool} {pat : Str} {c : Char} (hword : word c = false) (hpat : c ∉ pat)
    (s t : Str) : hasToken word pat (s ++ c :: t) = true ↔ hasToken word pat s = true ∨ hasToken word pat t = true := by
  have hc : ∀ d ∈ some c, word d = false := by
    intro d hd
    rw [← Option.some.inj hd]
    exact hword
  constructor
  · intro h
    obtain ⟨a, b, hab, ha, hb⟩ := hasToken_iff.1 h
    obtain ⟨d, hd, hrest⟩ | ⟨d, rfl, rfl⟩ := List.append_eq_append_iff.1 hab
    · cases d with
      | nil =>
        rw [List.append_nil] at hd
        exact .inl (hasToken_iff.2 ⟨a, [], by rw [hd, List.append_nil], ha, rfl⟩)
      | cons c' d =>
        obtain ⟨rfl, rfl⟩ := List.cons.inj hrest
        obtain ⟨e, rfl, rfl⟩ | ⟨e, rfl, he⟩ := List.append_eq_append_iff.1 hd
        · exact absurd (List.mem_append_right e List.mem_cons_self) hpat
        · cases e with
          | nil =>
            rw [List.nil_append] at he
            exact absurd (he ▸ List.mem_cons_self) hpat
          | cons c' e =>
            obtain ⟨rfl, rfl⟩ := List.cons.inj he
            rw [List.getLast?_append_of_ne_nil s (List.cons_ne_nil c e)] at ha
            refine .inr (hasToken_iff.2 ⟨e, b, rfl, ?_, hb⟩)
            cases e with
            | nil => rfl
            | cons d e => exact ha
    · refine .inl (hasToken_iff.2 ⟨a, d, rfl, ha, ?_⟩)
      cases d with
      | nil => rfl
      | cons c' d => exact hb
  · rintro (h | h)
    · exact hasToken_around (x := []) (y := c :: t) (fun d hd => absurd hd (Option.not_mem_none d)) hc h
    · have hlong := hasToken_around (x := s ++ [c]) (y := []) (by rwa [List.getLast?_concat])
        (fun d hd => absurd hd (Option.not_mem_none d)) h
      rw [List.append_nil, List.append_assoc] at hlong
      exact hlong

end Text
