/-
Python's `str` as a list of code points, with the methods a program calls on it. `isSpace` is `str.isspace` of one
character. `count` counts occurrences that do not overlap, and an empty pattern occurs once before every character and
once at the end, as in Python.

- `strip_strip`: stripping twice is stripping once;
- `splitFirst_eq_none`: the search for a pattern fails exactly when `contains` does.
-/
import Mathlib.Tactic
import Mathlib.Data.List.DropRight

namespace Text

/-- a Python string -/
abbrev Str := List Char

instance : LawfulBEq Str := inferInstanceAs (LawfulBEq (List Char))

def isSpace (c : Char) : Bool :=
  let n := c.toNat
  (9 ≤ n && n ≤ 13) || (28 ≤ n && n ≤ 32) || n = 0x85 || n = 0xa0 || n = 0x1680 || (0x2000 ≤ n && n ≤ 0x200a) ||
    n = 0x2028 || n = 0x2029 || n = 0x202f || n = 0x205f || n = 0x3000

def lstrip (t : Str) : Str := t.dropWhile isSpace

def rstrip (t : Str) : Str := t.rdropWhile isSpace

def strip (t : Str) : Str := rstrip (lstrip t)

/-- `t.startswith(pat)` -/
def startsWith (pat t : Str) : Bool := pat.isPrefixOf t

/-- `t.endswith(pat)` -/
def endsWith (pat t : Str) : Bool := pat.isSuffixOf t

/-- `t.split()`: the runs of characters that are not spaces -/
def split (t : Str) : List Str := (t.splitOnP isSpace).filter (· ≠ [])

/-- `sep.join(ts)` -/
def join (sep : Str) (ts : List Str) : Str := sep.intercalate ts

/-- the text before the first occurrence of `pat`, and the text after it -/
def splitFirst (pat : Str) : Str → Option (Str × Str)
  | [] => if pat = [] then some ([], []) else none
  | c :: cs =>
    if pat.isPrefixOf (c :: cs) then some ([], (c :: cs).drop pat.length)
    else (splitFirst pat cs).map fun (a, b) => (c :: a, b)

/-- `pat in t` -/
def contains (pat t : Str) : Bool := t.tails.any fun s => pat.isPrefixOf s

/-- occurrences of `pat`, the first `skip` characters being part of the last one counted -/
def countFrom (pat : Str) : ℕ → Str → ℕ
  | _, [] => 0
  | skip + 1, _ :: cs => countFrom pat skip cs
  | 0, c :: cs => if pat.isPrefixOf (c :: cs) then countFrom pat (pat.length - 1) cs + 1 else countFrom pat 0 cs

/-- `t.count(pat)` -/
def count (pat t : Str) : ℕ := if pat = [] then t.length + 1 else countFrom pat 0 t

/-- `t.replace(old, new, 1)` -/
def replaceFirst (old new t : Str) : Str :=
  match splitFirst old t with
  | none => t
  | some (a, b) => a ++ new ++ b

/-- `len(t.encode("utf-8"))` -/
def utf8Size (t : Str) : ℕ := (t.map Char.utf8Size).sum

theorem rstrip_rstrip (t : Str) : rstrip (rstrip t) = rstrip t := List.rdropWhile_idempotent _ _

/-- a text that starts with no space still does once its end is stripped -/
theorem lstrip_rstrip {t : Str} (h : lstrip t = t) : lstrip (rstrip t) = rstrip t := by
  have hp : rstrip t <+: t := List.rdropWhile_prefix _ _
  cases hr : rstrip t with
  | nil => rfl
  | cons c r =>
    obtain ⟨l, hl⟩ := hp
    rw [hr] at hl
    have hc : isSpace c = false := by
      by_contra hc
      rw [← hl, lstrip, List.cons_append, List.dropWhile_cons_of_pos (by simpa using hc)] at h
      have := congrArg List.length h
      have hle := (List.dropWhile_sublist isSpace (l := r ++ l)).length_le
      simp only [List.length_cons] at this
      omega
    exact List.dropWhile_cons_of_neg (by simp [hc])

theorem strip_strip (t : Str) : strip (strip t) = strip t := by
  have h : lstrip (lstrip t) = lstrip t := List.dropWhile_idempotent _ _
  rw [strip, strip, lstrip_rstrip h, rstrip_rstrip]

/-- the search fails exactly when the pattern does not occur -/
theorem splitFirst_eq_none {pat t : Str} : splitFirst pat t = none ↔ contains pat t = false := by
  induction t with
  | nil => cases pat <;> simp [splitFirst, contains]
  | cons c t ih =>
    simp only [splitFirst, contains, List.tails_cons, List.any_cons, Bool.or_eq_false_iff] at ih ⊢
    split_ifs with h
    · simp [h]
    · simp [h, ih]

end Text
