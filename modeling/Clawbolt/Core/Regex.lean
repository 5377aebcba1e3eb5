/-
Regular expressions without captures, with the end of the text and word boundaries: whether a text has a match, not which
of its matches an engine takes.

- `ends`: the places where a match that starts at a place may end;
- `ends_first`: a match that reads a character reads one of the first characters of the expression;
- `match?_spaces`: so an expression behind optional spaces decides what the first character of the text that is no space is.
-/
import Mathlib.Tactic
import Clawbolt.Core.Text

open Text (Str)

inductive Regex where
  | empty
  | one (set : Char → Bool)
  /-- characters of a class, from `least` to `most` of them -/
  | rep (set : Char → Bool) (least : ℕ) (most : Option ℕ)
  /-- `\b`, for characters of words -/
  | boundary (word : Char → Bool)
  /-- `$` -/
  | finish
  | seq (r s : Regex)
  | alt (r s : Regex)

namespace Regex

/-- a place in a text: the character before it, and the text after it -/
abbrev Place := Option Char × Str

def repEnds (set : Char → Bool) : ℕ → Option ℕ → Option Char → Str → List Place
  | least, _, before, [] => if least = 0 then [(before, [])] else []
  | least, most, before, c :: cs =>
    (if least = 0 then [(before, c :: cs)] else []) ++
      if set c = true ∧ most ≠ some 0 then repEnds set (least - 1) (most.map (· - 1)) (some c) cs else []

/-- where a match that starts at a place may end -/
def ends : Regex → Place → List Place
  | .empty, p => [p]
  | .one _, (_, []) => []
  | .one set, (_, c :: cs) => if set c then [(some c, cs)] else []
  | .rep set least most, (before, t) => repEnds set least most before t
  | .boundary word, p => if p.1.any word = p.2.head?.any word then [] else [p]
  | .finish, p => if p.2 = [] ∨ p.2 = ['\n'] then [p] else []
  | .seq r s, p => (ends r p).flatMap (ends s)
  | .alt r s, p => ends r p ++ ends s p

/-- `re.match(r, t)` is a match -/
def match? (r : Regex) (t : Str) : Bool := !(ends r (none, t)).isEmpty

/-- a match from some place on -/
def searchFrom (r : Regex) : Option Char → Str → Bool
  | before, [] => !(ends r (before, [])).isEmpty
  | before, c :: cs => !(ends r (before, c :: cs)).isEmpty || searchFrom r (some c) cs

/-- `re.search(r, t)` is a match -/
def search? (r : Regex) (t : Str) : Bool := searchFrom r none t

/-! ## Building expressions -/

def seqs (rs : List Regex) : Regex := rs.foldr .seq .empty

/-- of one expression at least -/
def alts (r : Regex) (rs : List Regex) : Regex := rs.foldl .alt r

def opt (r : Regex) : Regex := .alt r .empty

def spaces : Regex := .rep Text.isSpace 0 none

/-- the simple lower case of the letters that patterns here are made of, and of the characters that have such a letter as
their lower case -/
def lower (c : Char) : Char :=
  match c with
  | 'É' => 'é'
  | 'Ó' => 'ó'
  | 'İ' => 'i'
  | '\u212a' => 'k'
  | c => c.toLower

/-- the characters that a character of a pattern matches under `re.IGNORECASE` -/
def alike (a c : Char) : Bool :=
  lower c = lower a || (lower a = 'i' && c = 'ı') || (lower a = 's' && c = 'ſ')

/-- a text, its case ignored -/
def lit (s : String) : Regex := s.toList.foldr (fun a r => .seq (.one (alike a)) r) .empty

def words (s : String) (ss : List String) : Regex := alts (lit s) (ss.map lit)

/-! ## First characters -/

/-- whether a match may read nothing -/
def nullable : Regex → Bool
  | .empty => true
  | .one _ => false
  | .rep _ least _ => least = 0
  | .boundary _ => true
  | .finish => true
  | .seq r s => nullable r && nullable s
  | .alt r s => nullable r || nullable s

/-- the first characters that a match may read -/
def first : Regex → Char → Bool
  | .one set, c => set c
  | .rep set _ _, c => set c
  | .seq r s, c => first r c || (nullable r && first s c)
  | .alt r s, c => first r c || first s c
  | _, _ => false

theorem repEnds_first {set : Char → Bool} {least : ℕ} {most : Option ℕ} {before : Option Char} {t : Str} {p : Place}
    (h : p ∈ repEnds set least most before t) : p = (before, t) ∧ least = 0 ∨ ∃ c cs, t = c :: cs ∧ set c = true := by
  cases t with
  | nil =>
    rw [repEnds] at h
    split_ifs at h with hleast
    · exact .inl ⟨List.mem_singleton.1 h, hleast⟩
    · cases h
  | cons c cs =>
    rw [repEnds, List.mem_append] at h
    obtain h | h := h
    · split_ifs at h with hleast
      · exact .inl ⟨List.mem_singleton.1 h, hleast⟩
      · cases h
    · split_ifs at h with hset
      · exact .inr ⟨c, cs, rfl, hset.1⟩
      · cases h

/-- **First characters.** A match reads nothing, or one of the first characters of the expression. -/
theorem ends_first {r : Regex} {p q : Place} (h : q ∈ ends r p) :
    q = p ∧ nullable r = true ∨ ∃ c cs, p.2 = c :: cs ∧ first r c = true := by
  induction r generalizing p q with
  | empty => exact .inl ⟨List.mem_singleton.1 h, rfl⟩
  | one set =>
    obtain ⟨before, t⟩ := p
    cases t with
    | nil => cases h
    | cons c cs =>
      rw [ends] at h
      split_ifs at h with hset
      · exact .inr ⟨c, cs, rfl, hset⟩
      · cases h
  | rep set least most =>
    obtain ⟨before, t⟩ := p
    obtain ⟨hq, hleast⟩ | hread := repEnds_first h
    · exact .inl ⟨hq, decide_eq_true hleast⟩
    · exact .inr hread
  | boundary word =>
    rw [ends] at h
    split_ifs at h
    · cases h
    · exact .inl ⟨List.mem_singleton.1 h, rfl⟩
  | finish =>
    rw [ends] at h
    split_ifs at h
    · exact .inl ⟨List.mem_singleton.1 h, rfl⟩
    · cases h
  | seq r s ihr ihs =>
    obtain ⟨m, hm, hq⟩ := List.mem_flatMap.1 h
    obtain ⟨rfl, hnull⟩ | ⟨c, cs, hc, hfirst⟩ := ihr hm
    · obtain ⟨rfl, hnull'⟩ | ⟨c, cs, hc, hfirst⟩ := ihs hq
      · exact .inl ⟨rfl, by rw [nullable, hnull, hnull']; rfl⟩
      · exact .inr ⟨c, cs, hc, by rw [first, hnull, hfirst, Bool.and_self, Bool.or_true]⟩
    · exact .inr ⟨c, cs, hc, by rw [first, hfirst, Bool.true_or]⟩
  | alt r s ihr ihs =>
    obtain h | h := List.mem_append.1 h
    · obtain ⟨rfl, hnull⟩ | ⟨c, cs, hc, hfirst⟩ := ihr h
      · exact .inl ⟨rfl, by rw [nullable, hnull, Bool.true_or]⟩
      · exact .inr ⟨c, cs, hc, by rw [first, hfirst, Bool.true_or]⟩
    · obtain ⟨rfl, hnull⟩ | ⟨c, cs, hc, hfirst⟩ := ihs h
      · exact .inl ⟨rfl, by rw [nullable, hnull, Bool.or_true]⟩
      · exact .inr ⟨c, cs, hc, by rw [first, hfirst, Bool.or_true]⟩

/-- what follows some characters of a class -/
theorem mem_repEnds_find {set : Char → Bool} {least : ℕ} {most : Option ℕ} {before : Option Char} {t : Str} {p : Place}
    (h : p ∈ repEnds set least most before t) {c : Char} {cs : Str} (hp : p.2 = c :: cs) (hc : set c = false) :
    t.find? (fun a => !set a) = some c := by
  induction t generalizing least most before with
  | nil =>
    rw [repEnds] at h
    split_ifs at h
    · rw [List.mem_singleton.1 h] at hp
      cases hp
    · cases h
  | cons a t ih =>
    rw [repEnds, List.mem_append] at h
    obtain h | h := h
    · split_ifs at h
      · rw [List.mem_singleton.1 h] at hp
        obtain ⟨rfl, -⟩ := List.cons.inj hp
        rw [List.find?_cons_of_pos (by rw [hc]; rfl)]
      · cases h
    · split_ifs at h with hset
      · rw [List.find?_cons_of_neg (by rw [hset.1]; exact Bool.false_ne_true)]
        exact ih h
      · cases h

/-- behind optional spaces: the first character that is no space -/
theorem match?_spaces {r : Regex} {t : Str} (hnull : nullable r = false) (hspace : ∀ c, first r c = true → Text.isSpace c = false)
    (h : match? (.seq spaces r) t = true) : ∃ c, t.find? (fun a => !Text.isSpace a) = some c ∧ first r c = true := by
  rw [match?, Bool.not_eq_true', List.isEmpty_eq_false_iff_exists_mem] at h
  obtain ⟨q, hq⟩ := h
  obtain ⟨m, hm, hq⟩ := List.mem_flatMap.1 hq
  obtain ⟨-, hnull'⟩ | ⟨c, cs, hc, hfirst⟩ := ends_first hq
  · rw [hnull] at hnull'
    cases hnull'
  · exact ⟨c, mem_repEnds_find hm hc (hspace c hfirst), hfirst⟩

end Regex
