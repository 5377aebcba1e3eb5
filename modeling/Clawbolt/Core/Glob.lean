/-
Python's `fnmatch`: shell patterns over `Str`. A pattern is read into tokens as `fnmatch.translate` reads it, and the tokens
are matched against the whole text. On a case-sensitive file system the case of a name is left as it is.

- `fnmatch_plain`: a pattern without `*`, `?` and `[` matches itself only.
-/
import Mathlib.Tactic
import Clawbolt.Core.Text

namespace Glob

open Text (Str)

/-! ## Sets of characters -/

inductive Item where
  | one (c : Char)
  | range (a b : Char)
deriving DecidableEq, Repr

/-- the characters and ranges between brackets; an empty range is dropped -/
def items : Str → List Item
  | a :: '-' :: b :: rest => if a ≤ b then .range a b :: items rest else items rest
  | a :: rest => .one a :: items rest
  | [] => []

def Item.has (c : Char) : Item → Bool
  | .one a => c = a
  | .range a b => a ≤ c && c ≤ b

/-- what a position of a text may be -/
inductive Token where
  | star
  | any
  | lit (c : Char)
  | set (negated : Bool) (items : List Item)
deriving DecidableEq, Repr

/-- the set between brackets. A leading `!` negates it, also one that comes first when the empty ranges are dropped; of a
range that starts with such a `!` the hyphen and the end remain. -/
def setToken (stuff : Str) : Token :=
  match stuff with
  | '!' :: rest => .set true (items rest)
  | _ =>
    match items stuff with
    | .one '!' :: its => .set true its
    | .range '!' b :: its => .set true (.one '-' :: .one b :: its)
    | its => .set false its

/-- the text up to the closing bracket, and the text after it; a `]` right after the `[` or the `[!` is a character -/
def splitSet (rest : Str) : Option (Str × Str) :=
  let (bang, rest) := match rest with | '!' :: r => (['!'], r) | _ => ([], rest)
  let (first, rest) := match rest with | ']' :: r => ([']'], r) | _ => ([], rest)
  if ']' ∈ rest then
    some (bang ++ first ++ rest.takeWhile (· ≠ ']'), (rest.dropWhile (· ≠ ']')).tail)
  else none

/-! ## Patterns -/

/-- the tokens of a pattern, at most `n` of them -/
def tokens : ℕ → Str → List Token
  | 0, _ => []
  | _ + 1, [] => []
  | n + 1, c :: rest =>
    if c = '*' then .star :: tokens n rest
    else if c = '?' then .any :: tokens n rest
    else if c = '[' then
      match splitSet rest with
      | some (stuff, after) => setToken stuff :: tokens n after
      | none => .lit '[' :: tokens n rest
    else .lit c :: tokens n rest

/-- `fnmatch.translate` -/
def translate (pat : Str) : List Token := tokens pat.length pat

def Token.has (c : Char) : Token → Bool
  | .star => false
  | .any => true
  | .lit a => c = a
  | .set negated its => its.any (Item.has c) != negated

/-- the tokens match the whole text -/
def matchTokens : List Token → Str → Bool
  | [], text => text = []
  | .star :: ts, text => text.tails.any (matchTokens ts)
  | t :: ts, text =>
    match text with
    | [] => false
    | c :: text => t.has c && matchTokens ts text

/-- `fnmatch(name, pat)` -/
def fnmatch (name pat : Str) : Bool := matchTokens (translate pat) name

/-- a character with a meaning of its own in a pattern -/
def isMeta (c : Char) : Bool := c = '*' || c = '?' || c = '['

theorem translate_plain {pat : Str} (h : ∀ c ∈ pat, isMeta c = false) : translate pat = pat.map .lit := by
  induction pat with
  | nil => rfl
  | cons c rest ih =>
    have hc := h c List.mem_cons_self
    simp only [isMeta, Bool.or_eq_false_iff, decide_eq_false_iff_not] at hc
    obtain ⟨⟨h1, h2⟩, h3⟩ := hc
    have hcons : translate (c :: rest) = .lit c :: translate rest := by
      rw [translate, List.length_cons, tokens, if_neg h1, if_neg h2, if_neg h3]
      rfl
    rw [hcons, ih fun x hx => h x (List.mem_cons_of_mem _ hx), List.map_cons]

theorem matchTokens_lit (pat text : Str) : matchTokens (pat.map .lit) text = true ↔ text = pat := by
  induction pat generalizing text with
  | nil => simp [matchTokens]
  | cons c pat ih =>
    cases text with
    | nil => simp [matchTokens]
    | cons x text => simp [matchTokens, Token.has, ih]

/-- **A pattern without metacharacters** matches itself only. -/
theorem fnmatch_plain {name pat : Str} (h : ∀ c ∈ pat, isMeta c = false) : fnmatch name pat = true ↔ name = pat := by
  rw [fnmatch, translate_plain h, matchTokens_lit]

end Glob
